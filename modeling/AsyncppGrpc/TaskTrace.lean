import AsyncppGrpc.TaskAccounting

/-! The trace of a task frame: the hooks, the stream operations and what the body receives, as
a word determined by the decisions and outcomes of the run. -/
namespace AsyncppGrpc.Task
open Run
variable {R Req Resp : Type*}

/-- How a body ended: whether it threw, and the status it returned or was given. -/
structure Ending where
  thrown : Bool
  status : Status
  deriving DecidableEq

/-- What a run decides: the statuses `on_authenticate` rejects with, whether it accepts, the
operations the body awaits, the outcomes of their completions, how the body ends, and the
response as the body last left it. -/
structure Decisions (Resp : Type*) where
  rejected : List Status := []
  accepted : Bool := false
  awaited : List (Op Resp) := []
  outcomes : List Bool := []
  ended : List Ending := []
  response : Resp
  deriving DecidableEq

def Decisions.next (d : Decisions Resp) : Action R Req Resp → Decisions Resp
  | .authenticate result =>
    if result.ok then { d with accepted := true }
    else { d with rejected := d.rejected ++ [result] }
  | .await op => { d with awaited := d.awaited ++ [op] }
  | .complete .operation ok => { d with outcomes := d.outcomes ++ [ok] }
  | .respond response => { d with response := response }
  | .coReturn status => { d with ended := d.ended ++ [⟨false, status⟩] }
  | .throws status => { d with ended := d.ended ++ [⟨true, status⟩] }
  | _ => d

def decisions [Inhabited Resp] (as : List (Action R Req Resp)) : Decisions Resp :=
  as.foldl Decisions.next { response := default }

/-- The Finish of an RPC that `on_authenticate` rejects. -/
def rejectOp (m : RpcMethodType) (status : Status) : StreamOp Resp :=
  if m.isServerStreaming then .finish status else .finishWithError status

/-- The Finish of an RPC whose body has ended, and the hook before it. -/
def terminalOp (m : RpcMethodType) (response : Resp) (status : Status) : StreamOp Resp :=
  if m.isServerStreaming then .finish status
  else if status.ok then .finishWithResponse response status
  else .finishWithError status

def finishHook (m : RpcMethodType) (response : Resp) (status : Status) : Hook Resp :=
  .onFinish status (if m.isServerStreaming = false ∧ status.ok then some response else none)

/-- What `final_suspend` calls and issues. -/
theorem finalSuspend_issues (s : Frame R Req Resp) : finalSuspend s =
    issue (callHook { s with point := .final } (finishHook s.method s.ctx.response s.ctx.status))
      (terminalOp s.method s.ctx.response s.ctx.status) .final := by
  unfold finalSuspend finishHook terminalOp
  cases hm : s.method.isServerStreaming with
  | true => simp [hm]
  | false => cases hs : s.ctx.status.ok <;> simp [hm, hs, callHook]

theorem authenticate_rejects [DecidableEq Resp] (s : Frame R Req Resp) {result : Status}
    (h : result.ok = false) :
    authenticate s result = issue s (rejectOp s.method result) .rejection := by
  unfold authenticate rejectOp
  cases hm : s.method.isServerStreaming <;> simp [h]

def rejectionWord (m : RpcMethodType) (status : Status) : List (Event Resp) :=
  [.hook .onAuthenticate, .issue (rejectOp m status)]

def startWord : Op Resp → List (Event Resp)
  | .sendInitialMetadata => [.hook .onSendInitialMetadataStart, .issue .sendInitialMetadata]
  | .read => [.hook .onReadStart, .issue .read]
  | .write msg => [.hook (.onWriteStart msg), .issue (.write msg)]

def doneWord (ok : Bool) : Op Resp → List (Event Resp)
  | .sendInitialMetadata => [.hook (.onSendInitialMetadataDone ok), .received ok]
  | .read => [.hook (.onReadDone ok), .received ok]
  | .write _ => [.hook (.onWriteDone ok), .received ok]

theorem startWord_eq (op : Op Resp) :
    startWord op = [.hook op.startHook, .issue op.streamOp] := by
  cases op <;> rfl

theorem doneWord_eq (op : Op Resp) (ok : Bool) :
    doneWord ok op = [.hook (op.doneHook ok), .received ok] := by
  cases op <;> rfl

/-- The operations of a body one after the other, the last perhaps not completed. -/
def operationsWord : List (Op Resp) → List Bool → List (Event Resp)
  | op :: ops, ok :: oks => startWord op ++ doneWord ok op ++ operationsWord ops oks
  | op :: _, [] => startWord op
  | [], _ => []

def endingWord (m : RpcMethodType) (response : Resp) (e : Ending) : List (Event Resp) :=
  (if e.thrown then [.hook .onUnhandledException] else []) ++
    [.hook (finishHook m response e.status), .issue (terminalOp m response e.status)]

/-- The rejected RPCs, then the opening, the operations and the end of the accepted one;
`authenticating`: `on_authenticate` has not called back. -/
def Decisions.word (m : RpcMethodType) (authenticating : Bool) (d : Decisions Resp) :
    List (Event Resp) :=
  d.rejected.flatMap (rejectionWord m) ++
  (if d.accepted then [.hook .onAuthenticate, .hook .onStart]
    else if authenticating then [.hook .onAuthenticate] else []) ++
  operationsWord d.awaited d.outcomes ++ d.ended.flatMap (endingWord m d.response)

theorem operationsWord_append {ops : List (Op Resp)} {oks : List Bool}
    (h : ops.length = oks.length) (ops' : List (Op Resp)) (oks' : List Bool) :
    operationsWord (ops ++ ops') (oks ++ oks') =
      operationsWord ops oks ++ operationsWord ops' oks' := by
  induction ops generalizing oks with
  | nil =>
    obtain rfl : oks = [] := by simpa [eq_comm] using h
    rfl
  | cons op ops ih =>
    cases oks with
    | nil => simp at h
    | cons ok oks => simp [operationsWord, ih (by simpa using h)]

/-- No body has run. -/
structure Decisions.Unstarted (d : Decisions Resp) : Prop where
  accepted : d.accepted = false
  awaited : d.awaited = []
  outcomes : d.outcomes = []
  ended : d.ended = []

/-- A body has run, and every operation it awaited is completed. -/
structure Decisions.Matched (d : Decisions Resp) : Prop where
  accepted : d.accepted = true
  matched : d.awaited.length = d.outcomes.length

/-- What a run has decided when the coroutine is at the given point. -/
def Decisions.At (d : Decisions Resp) : Point Resp → Prop
  | .initial => d.Unstarted
  | .body => d.Matched ∧ d.ended = []
  | .operation op => d.accepted = true ∧ d.ended = [] ∧
      ∃ ops, d.awaited = ops ++ [op] ∧ ops.length = d.outcomes.length
  | .final => d.Matched ∧ d.ended.length = 1
  | .destroyed => d.Unstarted ∨ d.Matched ∧ d.ended.length = 1

theorem Decisions.At.ended_le {d : Decisions Resp} {p : Point Resp} (h : d.At p) :
    d.ended.length ≤ 1 := by
  cases p with
  | initial => simp [h.ended]
  | body => simp [h.2]
  | operation op => simp [h.2.1]
  | final => simp [h.2]
  | destroyed =>
    rcases h with h | ⟨-, h⟩
    · simp [h.ended]
    · omega

theorem Decisions.At.unstarted {d : Decisions Resp} {p : Point Resp} (h : d.At p)
    (ha : d.accepted = false) : d.Unstarted := by
  cases p with
  | initial => exact h
  | body => simp [h.1.accepted] at ha
  | operation op => simp [h.1] at ha
  | final => simp [h.1.accepted] at ha
  | destroyed =>
    rcases h with h | ⟨h, -⟩
    · exact h
    · simp [h.accepted] at ha

structure Traced (m : RpcMethodType) (s : Frame R Req Resp) (d : Decisions Resp) : Prop where
  method : s.method = m
  response : s.ctx.response = d.response
  trace : s.trace = d.word m s.authenticating
  stage : d.At s.point

theorem decisions_concat [Inhabited Resp] (as : List (Action R Req Resp))
    (a : Action R Req Resp) : decisions (as ++ [a]) = (decisions as).next a := by
  simp [decisions]

theorem traced_init [Inhabited Req] [Inhabited Resp] (m : RpcMethodType) :
    Traced m (.init m : Frame R Req Resp) { response := default } where
  method := rfl
  response := rfl
  trace := rfl
  stage := ⟨rfl, rfl, rfl, rfl⟩

section
variable {m : RpcMethodType} {s s' : Frame R Req Resp} {d : Decisions Resp}

/-- A step that neither adds to the trace nor decides anything. -/
theorem Traced.silent (h : Traced m s d) (hm : s'.method = s.method)
    (hresp : s'.ctx.response = s.ctx.response) (ht : s'.trace = s.trace)
    (ha : s'.authenticating = s.authenticating) (hp : d.At s'.point) : Traced m s' d where
  method := hm.trans h.method
  response := hresp.trans h.response
  trace := by rw [ht, ha, h.trace]
  stage := hp

theorem Traced.await (h : Traced m s d) (hp : s.point = .body) (op : Op Resp) :
    Traced m (await s op) { d with awaited := d.awaited ++ [op] } := by
  have hstage := h.stage
  rw [hp] at hstage
  obtain ⟨⟨hacc, hlen⟩, hend⟩ := hstage
  refine ⟨h.method, h.response, ?_, hacc, hend, _, rfl, hlen⟩
  have hword := operationsWord_append hlen [op] []
  simp only [List.append_nil] at hword
  simp [Task.await, issue, callHook, h.trace, Decisions.word, hacc, hend, hword, operationsWord,
    startWord_eq]

theorem Traced.respond (h : Traced m s d) (hp : s.point = .body) (response : Resp) :
    Traced m { s with ctx := { s.ctx with response := response } }
      { d with response := response } := by
  have hstage := h.stage
  rw [hp] at hstage
  refine ⟨h.method, rfl, ?_, ?_⟩
  · simp [h.trace, Decisions.word, hstage.2]
  · simp only [hp, Decisions.At]
    exact ⟨⟨hstage.1.accepted, hstage.1.matched⟩, hstage.2⟩

theorem Traced.ends (h : Traced m s d) (hp : s.point = .body) (e : Ending)
    (hs : s' = finalSuspend { s with
      ctx := { s.ctx with status := e.status }
      trace := s.trace ++ if e.thrown then [.hook .onUnhandledException] else [] }) :
    Traced m s' { d with ended := d.ended ++ [e] } := by
  have hstage := h.stage
  rw [hp] at hstage
  obtain ⟨⟨hacc, hlen⟩, hend⟩ := hstage
  rw [finalSuspend_issues] at hs
  subst hs
  refine ⟨h.method, h.response, ?_, ⟨hacc, hlen⟩, by simp [hend]⟩
  simp [issue, callHook, h.trace, Decisions.word, hacc, hend, endingWord, h.method, h.response]

theorem Traced.coReturn (h : Traced m s d) (hp : s.point = .body) (status : Status) :
    Traced m (coReturn s status) { d with ended := d.ended ++ [⟨false, status⟩] } :=
  h.ends hp _ (by simp [Task.coReturn])

theorem Traced.throws (h : Traced m s d) (hp : s.point = .body) (status : Status) :
    Traced m (throws s status) { d with ended := d.ended ++ [⟨true, status⟩] } :=
  h.ends hp _ (by simp [Task.throws, callHook])

theorem Traced.rejection [Inhabited Req] (h : Traced m s d) :
    Traced m (rejectionHandleEvent s) d :=
  h.silent rfl rfl rfl rfl h.stage
end

section
variable [DecidableEq Resp] {m : RpcMethodType} {s s' : Frame R Req Resp} {d : Decisions Resp}

theorem Traced.destroy (h : Traced m s d) {p : Point Resp} (hp : s.point = p)
    (hend : d.Unstarted ∨ d.Matched ∧ d.ended.length = 1) : Traced m (destroy s p) d := by
  rw [Task.destroy, if_pos hp]
  exact h.silent rfl rfl rfl rfl hend

theorem Traced.request (h : Traced m s d) (hp : s.point = .initial)
    (ha : s.authenticating = false) (call : Option (R × Req)) :
    Traced m (requestHandleEvent s call) d := by
  have hstage := h.stage
  rw [hp] at hstage
  cases call with
  | none => exact h.destroy hp (.inl hstage)
  | some call =>
    refine ⟨h.method, h.response, ?_, ?_⟩
    · simp [requestHandleEvent, h.trace, Decisions.word, hstage.accepted, hstage.awaited,
        hstage.ended, ha, operationsWord]
    · simpa [requestHandleEvent, hp] using hstage

theorem Traced.authenticate (h : Traced m s d) (hp : s.point = .initial)
    (ha : s.authenticating = true) (result : Status) :
    Traced m (authenticate { s with authenticating := false } result)
      (d.next (.authenticate result : Action R Req Resp)) := by
  have hstage := h.stage
  rw [hp] at hstage
  cases hr : result.ok with
  | true =>
    rw [authenticate_accepted _ hr, resume, if_pos (by exact hp)]
    refine ⟨h.method, ?_, ?_, ⟨?_, ?_⟩, ?_⟩
    · simpa [Decisions.next, hr, callHook] using h.response
    · simp [callHook, h.trace, Decisions.word, Decisions.next, hr, hstage.accepted,
        hstage.awaited, hstage.ended, ha, operationsWord]
    · simp [Decisions.next, hr]
    · simp [Decisions.next, hr, hstage.awaited, hstage.outcomes]
    · simp [Decisions.next, hr, hstage.ended]
  | false =>
    rw [authenticate_rejects _ hr]
    refine ⟨h.method, ?_, ?_, ?_⟩
    · simpa [Decisions.next, hr, issue] using h.response
    · simp [issue, h.trace, Decisions.word, Decisions.next, hr, hstage.accepted,
        hstage.awaited, hstage.ended, ha, operationsWord, rejectionWord, h.method]
    · simp only [issue, hp, Decisions.At, Decisions.next, hr]
      exact ⟨hstage.1, hstage.2, hstage.3, hstage.4⟩

theorem Traced.operation (h : Traced m s d) {op : Op Resp} (hp : s.point = .operation op)
    (ok : Bool) :
    Traced m (operationHandleEvent s ok) { d with outcomes := d.outcomes ++ [ok] } := by
  have hstage := h.stage
  rw [hp] at hstage
  obtain ⟨hacc, hend, ops, hops, hlen⟩ := hstage
  have heq : operationHandleEvent s ok = { s with
      point := .body
      trace := s.trace ++ [.hook (op.doneHook ok), .received ok] } := by
    simp [operationHandleEvent, hp, resume]
  rw [heq]
  refine ⟨h.method, h.response, ?_, ⟨hacc, by simp [hops, hlen]⟩, hend⟩
  have hbefore := operationsWord_append hlen [op] []
  have hafter := operationsWord_append hlen [op] [ok]
  simp only [List.append_nil] at hbefore
  simp [h.trace, Decisions.word, hacc, hend, hops, hbefore, hafter, operationsWord, startWord_eq,
    doneWord_eq]

theorem Traced.receiveDone (h : Traced m s d) (ok : Bool) : Traced m (receiveDone s ok) d := by
  unfold Task.receiveDone
  split
  · exact h.silent rfl rfl rfl rfl h.stage
  · rw [promiseHandleEvent_eq]
    exact h.silent rfl rfl rfl rfl h.stage

variable [DecidableEq R] [Inhabited Req]

theorem traced_step {a : Action R Req Resp} (hacc : Accounted s) (h : Traced m s d)
    (hs : step s a = some s') : Traced m s' (d.next a) := by
  obtain ⟨he, rfl⟩ := stepOf_eq_some.mp hs
  cases a with
  | request call =>
    obtain ⟨hat, hw⟩ := hacc.of_mem he.1
    have hp : s.point = .initial := hat
    rw [hacc.next_request he.1]
    have hpend : Traced m { s with pending := s.pending.erase .request } d :=
      h.silent rfl rfl rfl rfl h.stage
    exact hpend.request hp (hw _ hp).authenticating call
  | authenticate result =>
    obtain ⟨hp, -, -⟩ := hacc.outstanding.of_authenticating he
    rw [hacc.next_authenticate he]
    exact h.authenticate hp he result
  | complete tag ok =>
    obtain ⟨hat, -⟩ := hacc.of_mem he.2
    rw [hacc.next_complete he.2]
    have hpend : Traced m { s with pending := s.pending.erase tag } d :=
      h.silent rfl rfl rfl rfl h.stage
    cases tag with
    | request => exact absurd rfl he.1
    | rejection => exact hpend.rejection
    | operation =>
      obtain ⟨op, hp⟩ := hat
      exact hpend.operation hp ok
    | final =>
      have hp : s.point = .final := hat
      have hstage := h.stage
      rw [hp] at hstage
      exact hpend.destroy hp (.inr hstage)
  | done rpc ok =>
    refine Traced.receiveDone ?_ ok
    exact h.silent rfl rfl rfl rfl h.stage
  | cancel rpc => exact h.silent rfl rfl rfl rfl h.stage
  | await op => exact h.await he.1 op
  | respond response => exact h.respond he.1 response
  | coReturn status => exact h.coReturn he status
  | throws status => exact h.throws he status

theorem traced_run [Inhabited Resp] {as : List (Action R Req Resp)}
    (hr : run step (.init m) as = some s) : Traced m s (decisions as) := by
  refine (log_of_run (I := fun s as => Accounted s ∧ Traced m s (decisions as)) ?_ ?_ hr).2
  · exact ⟨accounted_init m, traced_init m⟩
  · intro s as a s' h hs
    rw [decisions_concat]
    exact ⟨accounted_step h.1 hs, traced_step h.1 h.2 hs⟩

/-- After its ending a body does not go on, and nothing is added to the trace. -/
def Closed (p : Point Resp) : Prop := p = .final ∨ p = .destroyed

theorem closed_step {a : Action R Req Resp} (h : Accounted s) (hp : Closed s.point)
    (hs : step s a = some s') : Closed s'.point ∧ s'.trace = s.trace := by
  obtain ⟨he, rfl⟩ := stepOf_eq_some.mp hs
  have hnot : s.point ≠ .initial ∧ s.point ≠ .body ∧ ∀ op, s.point ≠ .operation op := by
    rcases hp with hp | hp <;> simp [hp]
  cases a with
  | request call => exact absurd (h.of_mem he.1).1 hnot.1
  | authenticate result => exact absurd (h.outstanding.of_authenticating he).1 hnot.1
  | complete tag ok =>
    obtain ⟨hat, -⟩ := h.of_mem he.2
    cases tag with
    | request => exact absurd rfl he.1
    | rejection => exact absurd hat hnot.1
    | operation =>
      obtain ⟨op, hop⟩ := hat
      exact absurd hop (hnot.2.2 op)
    | final =>
      have hp : s.point = .final := hat
      rw [h.next_complete he.2]
      simp [complete, destroy, hp, Closed]
  | done rpc ok =>
    simp only [next, receiveDone, promiseHandleEvent_eq]
    split
    · exact ⟨hp, rfl⟩
    · exact ⟨hp, rfl⟩
  | cancel rpc => exact ⟨hp, rfl⟩
  | await op => exact absurd he.1 hnot.2.1
  | respond response => exact absurd he.1 hnot.2.1
  | coReturn status => exact absurd he hnot.2.1
  | throws status => exact absurd he hnot.2.1

theorem closed_run {as : List (Action R Req Resp)} (h : Accounted s) (hp : Closed s.point)
    (hr : run step s as = some s') : s'.trace = s.trace := by
  have hinv : Accounted s' ∧ Closed s'.point ∧ s'.trace = s.trace := by
    refine inv_of_run (P := fun u => Accounted u ∧ Closed u.point ∧ u.trace = s.trace)
      ⟨h, hp, rfl⟩ ?_ hr
    intro u a v hu huv
    obtain ⟨hpoint, htrace⟩ := closed_step hu.1 hu.2.1 huv
    exact ⟨accounted_step hu.1 huv, hpoint, htrace.trans hu.2.2⟩
  exact hinv.2.2

/-- The trace of a frame at any time of its life. It is the word of what the run has decided:
each rejected RPC is authenticated and finished, with no other hook; the accepted one is
authenticated and started once, its operations follow one another in the order awaited, each
between its start and done hooks, the done hook with the outcome the body receives; an ending
calls `on_unhandled_exception` if it was thrown and `on_finish` right before it issues the
terminal Finish. There is one ending at most, none before an RPC is accepted, and exactly one
when the frame is destroyed after that. A failed request ends the trace. -/
theorem trace_of_frame [Inhabited Resp] {as : List (Action R Req Resp)}
    (hr : run step (.init m) as = some s) :
    s.trace = (decisions as).word m s.authenticating ∧
    (decisions as).ended.length ≤ 1 ∧
    ((decisions as).accepted = false → (decisions as).Unstarted) ∧
    (s.point = .destroyed → s.authenticating = false ∧ ((decisions as).accepted = true →
      (decisions as).Matched ∧ (decisions as).ended.length = 1)) ∧
    ∀ pre post u, as = pre ++ .request none :: post → run step (.init m) pre = some u →
      s.trace = u.trace := by
  have h := traced_run hr
  have hacc := accounted_run hr
  refine ⟨h.trace, h.stage.ended_le, h.stage.unstarted, fun hp => ?_, fun pre post u has hu => ?_⟩
  · refine ⟨(hacc.outstanding.of_destroyed hp).2.1, fun haccepted => ?_⟩
    have hstage := h.stage
    rw [hp] at hstage
    refine hstage.resolve_left fun hun => ?_
    simp [hun.accepted] at haccepted
  · rw [has, run_append, hu] at hr
    obtain ⟨v, hv, hpost⟩ := run_cons_eq_some.mp hr
    have hu' := accounted_run hu
    obtain ⟨he, hnext⟩ := stepOf_eq_some.mp hv
    obtain ⟨hat, -⟩ := hu'.of_mem he.1
    have hp : u.point = .initial := hat
    have hv' : v.point = .destroyed ∧ v.trace = u.trace := by
      rw [hnext, hu'.next_request he.1]
      simp [requestHandleEvent, destroy, hp]
    rw [closed_run (accounted_step hu' hv) (.inr hv'.1) hpost, hv'.2]

/-- A bidirectional RPC is rejected; in the next one a read fails and the body throws. -/
def rejectReadThrow : List (Action Nat Unit Unit) :=
  [.request (some (0, ())), .authenticate { code := .unauthenticated }, .complete .rejection false,
    .request (some (1, ())), .authenticate {}, .await .read, .complete .operation false,
    .throws { code := .internal, message := "Unknown exception" }, .complete .final true]

theorem rejectReadThrow_trace : ∃ s : Frame Nat Unit Unit,
    run step (.init .bidiStreaming) rejectReadThrow = some s ∧ s.point = .destroyed ∧
    s.trace = (decisions rejectReadThrow).word .bidiStreaming s.authenticating ∧
    (decisions rejectReadThrow).ended.length = 1 := by
  have hr : run step (.init .bidiStreaming : Frame Nat Unit Unit) rejectReadThrow = some _ := rfl
  have h := trace_of_frame hr
  exact ⟨_, hr, rfl, h.1, (h.2.2.2.1 rfl).2 rfl |>.2⟩

example : (decisions rejectReadThrow).word .bidiStreaming false =
    [.hook .onAuthenticate, .issue (.finish { code := .unauthenticated }), .hook .onAuthenticate,
      .hook .onStart, .hook .onReadStart, .issue .read, .hook (.onReadDone false),
      .received false, .hook .onUnhandledException,
      .hook (.onFinish { code := .internal, message := "Unknown exception" } none),
      .issue (.finish { code := .internal, message := "Unknown exception" })] := by decide

end
end AsyncppGrpc.Task
