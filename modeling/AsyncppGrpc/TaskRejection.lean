import AsyncppGrpc.TaskAccounting
import AsyncppGrpc.Library.Project

/-! The context an accepted RPC finds after any number of rejected ones, against that of a task
created for it: event 1 of the initial awaiter resets the context and the stream, but not the
cancelled event. -/
namespace AsyncppGrpc.Task
open Run Project
variable {R Req Resp : Type*}

/-- No done notification raises the cancelled event: none is handled while the bound RPC is
cancelled. -/
def Quiet (s : Frame R Req Resp) : Action R Req Resp → Prop
  | .done _ ok => ok = true → isCancelled s = false
  | _ => True

/-- The same for the done notification of `rpc` alone. -/
def OwnQuiet (rpc : R) (s : Frame R Req Resp) : Action R Req Resp → Prop
  | .done r ok => r = rpc → ok = true → s.cancelled rpc = false
  | _ => True

instance (s : Frame R Req Resp) (a : Action R Req Resp) : Decidable (Quiet s a) :=
  match a with
  | .done _ ok => inferInstanceAs (Decidable (ok = true → isCancelled s = false))
  | .request _ | .authenticate _ | .complete _ _ | .cancel _ | .await _ | .respond _
  | .coReturn _ | .throws _ => instDecidableTrue

/-- The body of `s` is entered with the context of `t`, and finds the cancelled event set only
if the accepted RPC is cancelled. -/
structure NoTrace (rpc : R) (s t : Frame R Req Resp) : Prop where
  entered : s.point = .body ∧ t.point = .body
  ctx : s.ctx = t.ctx
  cancelled : s.ctx.isCancelled = true → s.cancelled rpc = true

/-- A frame at its initial suspend. -/
structure Rearmed [Inhabited Req] [Inhabited Resp] (m : RpcMethodType) (s : Frame R Req Resp) :
    Prop where
  method : s.method = m
  status : s.ctx.status = {}
  response : s.ctx.response = default
  dones : ∀ rpc ∈ s.dones, rpc ∈ s.started
  serves : ∀ rpc, s.ctx.context.rpc = some rpc → rpc ∈ s.started
  request : m.isClientStreaming = true → s.ctx.request = default
  requested : .request ∈ s.pending → s.ctx.context = ⟨none, true⟩ ∧ s.ctx.stream = {}

/-- An RPC that has reached the task is the one the hook is asked about. -/
def Current (rpc : R) (s : Frame R Req Resp) : Prop :=
  rpc ∈ s.started → s.authenticating = true ∧ s.ctx.context.rpc = some rpc

/-- The frame is at its initial suspend and has not turned `rpc` away. -/
def Before (rpc : R) (s : Frame R Req Resp) : Prop := s.point = .initial ∧ Current rpc s

theorem isCancelled_of_rpc {s : Frame R Req Resp} {rpc : R}
    (h : s.ctx.context.rpc = some rpc) : isCancelled s = s.cancelled rpc := by
  simp [isCancelled, h]

section
variable [Inhabited Req] [Inhabited Resp]

structure Inv (m : RpcMethodType) (s : Frame R Req Resp) : Prop where
  accounted : Accounted s
  rearmed : s.point = .initial → Rearmed m s

theorem inv_init (m : RpcMethodType) : Inv m (.init m : Frame R Req Resp) where
  accounted := accounted_init m
  rearmed _ := by
    constructor <;> simp [Frame.init, startGrpcCall]

end

section
variable [DecidableEq R]

/-- What a task that is handed `rpc` first gets of a schedule, until it is asked to
authenticate. -/
def concerns (rpc : R) : Action R Req Resp → Bool
  | .request call => call.map Prod.fst = some rpc
  | .done r _ => r = rpc
  | .cancel _ => true
  | _ => false

/-- The steps of a frame that stays at its initial suspend. -/
inductive InitialStep [DecidableEq Resp] [Inhabited Req] (s : Frame R Req Resp) :
    Action R Req Resp → Frame R Req Resp → Prop
  | request (rpc : R) (msg : Req) (hnew : rpc ∉ s.started) (hp : s.pending = [.request])
      (ha : s.authenticating = false) (s' : Frame R Req Resp)
      (hs' : s' = requestHandleEvent { s with pending := [] } (some (rpc, msg))) :
      InitialStep s (.request (some (rpc, msg))) s'
  | reject (result : Status) (op : StreamOp Resp) (hp : s.pending = []) (s' : Frame R Req Resp)
      (hs' : s' = issue { s with authenticating := false } op .rejection) :
      InitialStep s (.authenticate result) s'
  | rejection (ok : Bool) (ha : s.authenticating = false) (s' : Frame R Req Resp)
      (hs' : s' = rejectionHandleEvent { s with pending := [] }) :
      InitialStep s (.complete .rejection ok) s'
  | done (rpc : R) (ok : Bool) (hmem : rpc ∈ s.dones) (s' : Frame R Req Resp)
      (hs' : s' = promiseHandleEvent { s with dones := s.dones.erase rpc } ok) :
      InitialStep s (.done rpc ok) s'
  | cancel (rpc : R) (s' : Frame R Req Resp)
      (hs' : s' = { s with cancelled := Function.update s.cancelled rpc true }) :
      InitialStep s (.cancel rpc) s'

theorem Rearmed.step [DecidableEq Resp] [Inhabited Req] [Inhabited Resp] {m : RpcMethodType}
    {s s' : Frame R Req Resp} {a : Action R Req Resp} (h : Rearmed m s)
    (hs : InitialStep s a s') : Rearmed m s' := by
  cases hs with
  | request rpc msg hnew hp ha s' hs' =>
    subst hs'
    refine ⟨h.method, h.status, h.response, fun r hr => ?_, fun r hr => ?_, fun hm => ?_, ?_⟩
    · have hctx := (h.requested (by simp [hp])).1
      simp only [requestHandleEvent, hctx, if_true, List.mem_append] at hr ⊢
      exact hr.imp_left (h.dones r)
    · obtain rfl : rpc = r := by simpa [requestHandleEvent] using hr
      simp [requestHandleEvent]
    · simpa [requestHandleEvent, h.method, hm] using h.request hm
    · simp [requestHandleEvent]
  | reject result op hp s' hs' =>
    subst hs'
    exact ⟨h.method, h.status, h.response, h.dones, h.serves, h.request, by simp [issue, hp]⟩
  | rejection ok ha s' hs' =>
    subst hs'
    refine ⟨h.method, h.status, h.response, h.dones, by simp [rejectionHandleEvent, startGrpcCall],
      fun hm => ?_, fun _ => ⟨rfl, rfl⟩⟩
    simpa [rejectionHandleEvent, startGrpcCall, h.method, hm] using h.request hm
  | done rpc ok hmem s' hs' =>
    rw [promiseHandleEvent_eq] at hs'
    subst hs'
    refine ⟨h.method, h.status, h.response, fun r hr => ?_, h.serves, h.request, h.requested⟩
    exact h.dones r (List.mem_of_mem_erase hr)
  | cancel rpc s' hs' =>
    subst hs'
    exact ⟨h.method, h.status, h.response, h.dones, h.serves, h.request, h.requested⟩

end

section
variable [DecidableEq R] [DecidableEq Resp] [Inhabited Req] {s s' : Frame R Req Resp}

/-- The initial suspend is left for good, so that only these steps lead to it. -/
theorem initialStep_of_step {a : Action R Req Resp} (h : Accounted s)
    (hs : step s a = some s') (hp' : s'.point = .initial) :
    s.point = .initial ∧ InitialStep s a s' := by
  obtain ⟨he, rfl⟩ := stepOf_eq_some.mp hs
  cases a with
  | request call =>
    obtain ⟨hp, hpend, ha, -⟩ := h.outstanding.of_mem he.1
    have hp : s.point = .initial := hp
    refine ⟨hp, ?_⟩
    cases call with
    | none => simp [next, receive, requestHandleEvent, destroy, hp] at hp'
    | some call =>
      refine .request call.1 call.2 (he.2 _ rfl) hpend ha _ ?_
      simp [next, receive, requestHandleEvent, hp, hpend]
  | authenticate result =>
    obtain ⟨hp, hpend, -⟩ := h.outstanding.of_authenticating he
    refine ⟨hp, ?_⟩
    rw [h.next_authenticate he] at hp' ⊢
    cases hr : result.ok with
    | true =>
      rw [authenticate_accepted _ hr] at hp'
      simp [resume, callHook, hp] at hp'
    | false =>
      obtain ⟨op, heq⟩ := authenticate_rejected { s with authenticating := false } hr
      exact .reject result op hpend _ heq
  | complete tag ok =>
    obtain ⟨hat, hpend, ha, -⟩ := h.outstanding.of_mem he.2
    cases tag with
    | request => exact absurd rfl he.1
    | rejection =>
      have hp : s.point = .initial := hat
      refine ⟨hp, .rejection ok ha _ ?_⟩
      simp [next, receive, complete, hp, hpend]
    | operation =>
      obtain ⟨op, hop⟩ := hat
      simp [next, receive, complete, operationHandleEvent, resume, hop] at hp'
    | final =>
      have hf : s.point = .final := hat
      simp [next, receive, complete, destroy, hf] at hp'
  | done rpc ok =>
    have hp : s.point = .initial := by
      simp only [next, receiveDone] at hp'
      split at hp'
      · exact hp'
      · rw [promiseHandleEvent_eq] at hp'
        exact hp'
    refine ⟨hp, .done rpc ok he _ ?_⟩
    simp [next, receiveDone, hp]
  | cancel rpc => exact ⟨hp', .cancel rpc _ rfl⟩
  | await op => simp [next, await, issue, callHook] at hp'
  | respond response =>
    have hp : s.point = .initial := hp'
    have hbody : s.point = .body := he.1
    simp [hp] at hbody
  | coReturn status =>
    have hf : (coReturn s status).point = .final := (finalSuspend_point _).1
    simp [next, hf] at hp'
  | throws status =>
    have hf : (throws s status).point = .final := (finalSuspend_point _).1
    simp [next, hf] at hp'

/-- The body is entered with the context as it was when the hook called back. -/
theorem next_accepted {u : Frame R Req Resp} (hp : u.point = .initial) {result : Status}
    (hok : result.ok = true) : ∃ s, next u (.authenticate result) = s ∧ s.point = .body ∧
      s.ctx = u.ctx ∧ s.cancelled = u.cancelled := by
  refine ⟨_, rfl, ?_⟩
  simp [next, receive, hp, authenticate_accepted _ hok, resume, callHook]

theorem inv_step [Inhabited Resp] {m : RpcMethodType} {a : Action R Req Resp} (h : Inv m s)
    (hs : step s a = some s') : Inv m s' where
  accounted := accounted_step h.accounted hs
  rearmed hp' := by
    obtain ⟨hp, hstep⟩ := initialStep_of_step h.accounted hs hp'
    exact (h.rearmed hp).step hstep

theorem before_of_step [Inhabited Resp] {m : RpcMethodType} {a : Action R Req Resp} {rpc : R}
    (h : Inv m s) (hs : step s a = some s') (hb : Before rpc s') : Before rpc s := by
  obtain ⟨hp', hc⟩ := hb
  obtain ⟨hp, hstep⟩ := initialStep_of_step h.accounted hs hp'
  refine ⟨hp, fun hmem => ?_⟩
  cases hstep with
  | request r msg hnew _ _ s' hs' =>
    subst hs'
    obtain ⟨-, hrpc⟩ := hc (List.mem_append_left _ hmem)
    obtain rfl : r = rpc := by simpa [requestHandleEvent] using hrpc
    exact absurd hmem hnew
  | reject result op _ s' hs' =>
    subst hs'
    simpa [issue] using (hc hmem).1
  | rejection ok ha s' hs' =>
    subst hs'
    simpa [rejectionHandleEvent, startGrpcCall] using (hc hmem).2
  | done r ok _ s' hs' =>
    rw [promiseHandleEvent_eq] at hs'
    subst hs'
    exact hc hmem
  | cancel r s' hs' =>
    subst hs'
    exact hc hmem

end

section
variable [DecidableEq R]

/-- `t` was created for `rpc`, which `s` authenticates now: they differ in the cancelled event
at most. -/
structure Bound (rpc : R) (s t : Frame R Req Resp) : Prop where
  point : t.point = .initial
  authenticating : t.authenticating = true
  serves : t.ctx.context.rpc = some rpc
  ctx : s.ctx = { t.ctx with isCancelled := s.ctx.isCancelled }
  dones : t.dones = s.dones.filter (· = rpc)
  cancelled : t.cancelled = s.cancelled
  raised : t.ctx.isCancelled = true → s.ctx.isCancelled = true ∧ s.cancelled rpc = true

theorem Bound.ctx_eq {rpc : R} {s t : Frame R Req Resp} (h : Bound rpc s t)
    (hc : s.ctx.isCancelled = t.ctx.isCancelled) : s.ctx = t.ctx := by
  have hctx := h.ctx
  rw [hc] at hctx
  exact hctx

/-- Both tasks get the done notification of `rpc`. -/
theorem Bound.done {rpc : R} {s t : Frame R Req Resp} (h : Bound rpc s t) (ok : Bool) :
    Bound rpc (promiseHandleEvent { s with dones := s.dones.erase rpc } ok)
      (promiseHandleEvent { t with dones := t.dones.erase rpc } ok) := by
  have ht : isCancelled { t with dones := t.dones.erase rpc } = s.cancelled rpc := by
    rw [isCancelled_of_rpc (by exact h.serves), ← h.cancelled]
  have hs : isCancelled { s with dones := s.dones.erase rpc } = s.cancelled rpc := by
    refine isCancelled_of_rpc ?_
    rw [h.ctx]
    exact h.serves
  rw [promiseHandleEvent_eq, promiseHandleEvent_eq, ht, hs]
  refine ⟨h.point, h.authenticating, h.serves, ?_, ?_, h.cancelled, fun hr => ?_⟩
  · rw [h.ctx]
  · simp only [h.dones, List.erase_filter]
  · simp only [Bool.or_eq_true, Bool.and_eq_true] at hr ⊢
    rcases hr with hr | hr
    · exact ⟨.inl (h.raised hr).1, (h.raised hr).2⟩
    · exact ⟨.inr hr, hr.2⟩

end

section
variable [DecidableEq R] [DecidableEq Resp] [Inhabited Req] [Inhabited Resp]

/-- The task that is given nothing but `rpc`: fresh until that reaches `s`. -/
inductive Shadow (m : RpcMethodType) (rpc : R) (s t : Frame R Req Resp) : Prop where
  | fresh (hnew : rpc ∉ s.started) (ht : t = { Frame.init m with cancelled := s.cancelled })
  | bound (hmem : rpc ∈ s.started) (ht : Bound rpc s t)

/-- Both tasks take the request of `rpc`, one after its rejections and one at once. -/
theorem Bound.request {m : RpcMethodType} {rpc : R} {msg : Req} {s : Frame R Req Resp}
    (h : Rearmed m s) (hctx : s.ctx.context = ⟨none, true⟩) (hstream : s.ctx.stream = {})
    (hnew : rpc ∉ s.started) :
    Bound rpc (requestHandleEvent { s with pending := [] } (some (rpc, msg)))
      (next { Frame.init m with cancelled := s.cancelled } (.request (some (rpc, msg)))) where
  point := by simp [next, receive, requestHandleEvent, Frame.init, startGrpcCall]
  authenticating := by simp [next, receive, requestHandleEvent, Frame.init, startGrpcCall]
  serves := by simp [next, receive, requestHandleEvent, Frame.init, startGrpcCall]
  ctx := by
    cases hm : m.isClientStreaming with
    | true =>
      have hreq := h.request hm
      simp [next, receive, requestHandleEvent, Frame.init, startGrpcCall, hctx, hstream, hm, hreq,
        h.method, h.status, h.response]
    | false =>
      simp [next, receive, requestHandleEvent, Frame.init, startGrpcCall, hctx, hstream, hm,
        h.method, h.status, h.response]
  dones := by
    have hnone : s.dones.filter (· = rpc) = [] := by
      rw [List.filter_eq_nil_iff]
      intro r hr heq
      obtain rfl : r = rpc := by simpa using heq
      exact hnew (h.dones r hr)
    simp [next, receive, requestHandleEvent, Frame.init, startGrpcCall, hctx, hnone]
  cancelled := by simp [next, receive, requestHandleEvent, Frame.init, startGrpcCall]
  raised := by simp [next, receive, requestHandleEvent, Frame.init, startGrpcCall]

/-- A step of a frame on its way to the acceptance of `rpc`. -/
theorem follows_step (m : RpcMethodType) (rpc : R) :
    Follows step (concerns rpc)
      (fun s : Frame R Req Resp => Inv m s ∧ Before rpc s) (Shadow m rpc) := by
  intro s t a s' ⟨hinv, hp, hcur⟩ ⟨_, hp', hcur'⟩ hshadow hs
  obtain ⟨-, hstep⟩ := initialStep_of_step hinv.accounted hs hp'
  have hre := hinv.rearmed hp
  cases hshadow with
  | fresh hnew ht =>
    subst ht
    cases hstep with
    | request r msg hr hpend ha s' hs' =>
      subst hs'
      obtain ⟨hctx, hstream⟩ := hre.requested (by simp [hpend])
      by_cases heq : r = rpc
      · subst heq
        rw [if_pos (by simp [concerns])]
        refine ⟨_, stepOf_eq_some.mpr ⟨?_, rfl⟩, .bound (by simp [requestHandleEvent]) ?_⟩
        · simp [Enabled, Frame.init, startGrpcCall]
        · exact .request hre hctx hstream hnew
      · rw [if_neg (by simp [concerns, heq])]
        exact .fresh (by simp [requestHandleEvent, hnew, Ne.symm heq]) rfl
    | reject result op hpend s' hs' =>
      subst hs'
      exact .fresh hnew rfl
    | rejection ok ha s' hs' =>
      subst hs'
      exact .fresh hnew rfl
    | done r ok hmem s' hs' =>
      have hne : r ≠ rpc := by
        intro heq
        exact hnew (heq ▸ hre.dones r hmem)
      rw [promiseHandleEvent_eq] at hs'
      subst hs'
      rw [if_neg (by simp [concerns, hne])]
      exact .fresh hnew rfl
    | cancel r s' hs' =>
      subst hs'
      rw [if_pos (by simp [concerns])]
      exact ⟨_, stepOf_eq_some.mpr ⟨trivial, rfl⟩, .fresh hnew rfl⟩
  | bound hmem ht =>
    obtain ⟨hauth, hrpc⟩ := hcur hmem
    cases hstep with
    | request r msg hr hpend ha s' hs' => simp [ha] at hauth
    | reject result op hpend s' hs' =>
      subst hs'
      simpa [issue] using (hcur' hmem).1
    | rejection ok ha s' hs' => simp [ha] at hauth
    | done r ok hr s' hs' =>
      by_cases heq : r = rpc
      · subst heq
        subst hs'
        rw [if_pos (by simp [concerns])]
        refine ⟨_, stepOf_eq_some.mpr ⟨?_, rfl⟩, .bound ?_ ?_⟩
        · simpa [Enabled, ht.dones] using hr
        · rw [promiseHandleEvent_eq]
          exact hmem
        · simp only [next, receiveDone]
          rw [if_neg (by simp [ht.point])]
          exact ht.done ok
      · rw [promiseHandleEvent_eq] at hs'
        subst hs'
        rw [if_neg (by simp [concerns, heq])]
        refine .bound hmem ⟨ht.point, ht.authenticating, ht.serves, ?_, ?_, ht.cancelled, ?_⟩
        · rw [ht.ctx]
        · simp only [ht.dones, ← List.erase_filter]
          rw [List.erase_of_not_mem (by simp [heq])]
        · intro hr
          simp [ht.raised hr]
    | cancel r s' hs' =>
      subst hs'
      rw [if_pos (by simp [concerns])]
      refine ⟨_, stepOf_eq_some.mpr ⟨trivial, rfl⟩, .bound hmem ?_⟩
      refine ⟨ht.point, ht.authenticating, ht.serves, ht.ctx, ht.dones, ?_, fun hr => ?_⟩
      · simp [next, ht.cancelled]
      · have hraised := ht.raised hr
        by_cases heq : rpc = r
        · simp [hraised, heq]
        · simp [hraised, heq]

/-- A guard on the done notification of `rpc`, seen from both tasks. -/
theorem ownQuiet_iff {m : RpcMethodType} {rpc : R} {s s' t : Frame R Req Resp}
    {a : Action R Req Resp} (h : Inv m s ∧ Before rpc s) (hshadow : Shadow m rpc s t)
    (hs : step s a = some s') :
    if concerns rpc a then (OwnQuiet rpc s a ↔ Quiet t a) else OwnQuiet rpc s a := by
  obtain ⟨he, -⟩ := stepOf_eq_some.mp hs
  cases a with
  | done r ok =>
    by_cases heq : r = rpc
    · subst heq
      rw [if_pos (by simp [concerns])]
      cases hshadow with
      | fresh hnew ht => exact absurd ((h.1.rearmed h.2.1).dones r he) hnew
      | bound hmem ht =>
        simp only [OwnQuiet, Quiet, forall_const]
        rw [isCancelled_of_rpc ht.serves, ht.cancelled]
    · rw [if_neg (by simp [concerns, heq])]
      exact fun h => absurd h heq
  | _ =>
    split
    · exact Iff.rfl
    · trivial

theorem always_before {m : RpcMethodType} {rpc : R} {as : List (Action R Req Resp)}
    {u : Frame R Req Resp} (hr : run step (.init m) as = some u) (hb : Before rpc u) :
    Always step (fun s => Inv m s ∧ Before rpc s) (.init m) as := by
  have hinv : Always step (Inv m) (.init m : Frame R Req Resp) as :=
    always_of_inv (inv_init m) (fun _ _ _ => inv_step) as
  exact hinv.and (always_of_last hinv (fun s a s' => before_of_step) hr hb)

theorem raised_step {m : RpcMethodType} {rpc : R} (s : Frame R Req Resp) (a : Action R Req Resp)
    (s' : Frame R Req Resp) (h : Inv m s ∧ Before rpc s) (h' : Inv m s' ∧ Before rpc s')
    (hs : step s a = some s') :
    s'.ctx.isCancelled = true ↔ s.ctx.isCancelled = true ∨ ¬Quiet s a := by
  obtain ⟨-, hstep⟩ := initialStep_of_step h.1.accounted hs h'.2.1
  cases hstep with
  | request r msg hnew hpend ha s' hs' => simp [hs', Quiet, requestHandleEvent]
  | reject result op hpend s' hs' => simp [hs', Quiet, issue]
  | rejection ok ha s' hs' => simp [hs', Quiet, rejectionHandleEvent, startGrpcCall]
  | done r ok hmem s' hs' =>
    have hc : isCancelled { s with dones := s.dones.erase r } = isCancelled s := rfl
    simp [hs', promiseHandleEvent_eq, Quiet, hc]
  | cancel r s' hs' => simp [hs', Quiet]

/-- Until the body is entered the cancelled event is set by the done notifications that are
not quiet. -/
theorem raised_run {m : RpcMethodType} {rpc : R} {as : List (Action R Req Resp)}
    {u : Frame R Req Resp} (hr : run step (.init m) as = some u) (hb : Before rpc u) :
    u.ctx.isCancelled = true ↔ ¬Guarded step Quiet (.init m) as := by
  have hraised := raised_iff (always_before hr hb) raised_step hr
  simpa [Frame.init, startGrpcCall] using hraised

/-- The task that is given nothing but `rpc` gets to the same point. -/
theorem exists_bound {m : RpcMethodType} {rpc : R} {as : List (Action R Req Resp)}
    {u : Frame R Req Resp} (hr : run step (.init m) as = some u) (hb : Before rpc u)
    (hrpc : u.ctx.context.rpc = some rpc) :
    ∃ v, run step (.init m) (as.filter (concerns rpc)) = some v ∧ Bound rpc u v ∧
      (v.ctx.isCancelled = true ↔ ¬Guarded step (OwnQuiet rpc) (.init m) as) := by
  have hP := always_before hr hb
  have hshadow : Shadow m rpc (.init m : Frame R Req Resp) (.init m) :=
    .fresh (by simp [Frame.init, startGrpcCall]) rfl
  obtain ⟨v, hv, hsv⟩ := run_filter (follows_step m rpc) hP hshadow hr
  cases hsv with
  | fresh hnew ht => exact absurd (((hP.last hr).1.rearmed hb.1).serves rpc hrpc) hnew
  | bound _ hbound =>
    refine ⟨v, hv, hbound, ?_⟩
    have hbv : Before rpc v := ⟨hbound.point, fun _ => ⟨hbound.authenticating, hbound.serves⟩⟩
    rw [raised_run hv hbv, guarded_filter (follows_step m rpc)
      (fun s t a s' h hst hs => ownQuiet_iff h hst hs) hP hshadow hr]

/-- The context with which the body is entered is the one of a task that is given the accepted
RPC first exactly if no done notification was handled while the bound RPC was cancelled, or
the accepted RPC's own one was handled after that had been cancelled. -/
theorem rejected_leave_no_trace_iff {m : RpcMethodType} {as : List (Action R Req Resp)}
    {result : Status} {rpc : R} {s : Frame R Req Resp}
    (hr : run step (.init m) (as ++ [.authenticate result]) = some s)
    (hok : result.ok = true) (hrpc : s.ctx.context.rpc = some rpc) :
    ∃ t : Frame R Req Resp,
      run step (.init m) (as.filter (concerns rpc) ++ [.authenticate result]) = some t ∧
      (NoTrace rpc s t ↔ Guarded step Quiet (.init m : Frame R Req Resp) as ∨
        ¬Guarded step (OwnQuiet rpc) (.init m : Frame R Req Resp) as) := by
  obtain ⟨u, hu, hauth, rfl⟩ := run_concat.mp hr
  obtain ⟨hp, -, -⟩ := (accounted_run hu).outstanding.of_authenticating hauth
  obtain ⟨s, hs, hsbody, hsctx, hscan⟩ := next_accepted hp hok
  rw [hs, hsctx] at hrpc
  have hb : Before rpc u := ⟨hp, fun _ => ⟨hauth, hrpc⟩⟩
  obtain ⟨v, hv, hbound, hown⟩ := exists_bound hu hb hrpc
  obtain ⟨t, ht, htbody, htctx, -⟩ := next_accepted hbound.point hok
  refine ⟨t, run_concat.mpr ⟨v, hv, hbound.authenticating, ht.symm⟩, ?_⟩
  rw [hs]
  have hall := raised_run hu hb
  constructor
  · intro hno
    have heq : u.ctx = v.ctx := by rw [← hsctx, ← htctx, hno.ctx]
    by_cases hquiet : Guarded step Quiet (.init m : Frame R Req Resp) as
    · exact .inl hquiet
    · have hraised := hall.mpr hquiet
      rw [heq] at hraised
      exact .inr (hown.mp hraised)
  · intro h
    have hsame : u.ctx.isCancelled = v.ctx.isCancelled ∧
        (u.ctx.isCancelled = true → u.cancelled rpc = true) := by
      rcases h with hquiet | hnot
      · have hu' : u.ctx.isCancelled = false := by simpa using fun hc => hall.mp hc hquiet
        have hv' : v.ctx.isCancelled = false := by
          by_contra hc
          simp [(hbound.raised (by simpa using hc)).1] at hu'
        exact ⟨hu'.trans hv'.symm, by simp [hu']⟩
      · have hv' := hown.mpr hnot
        obtain ⟨hu', hcancelled⟩ := hbound.raised hv'
        exact ⟨hu'.trans hv'.symm, fun _ => hcancelled⟩
    refine ⟨⟨hsbody, htbody⟩, ?_, ?_⟩
    · rw [hsctx, htctx]
      exact hbound.ctx_eq hsame.1
    · rw [hsctx, hscan]
      exact hsame.2

/-- RPC 0 is cancelled and rejected, RPC 1 is requested next; the done notification of RPC 0
comes before or after the completion of its rejection. -/
def doneBefore : List (Action Nat Unit Unit) :=
  [.request (some (0, ())), .cancel 0, .done 0 true, .authenticate { code := .unauthenticated },
    .complete .rejection true, .request (some (1, ()))]

def doneAfter : List (Action Nat Unit Unit) :=
  [.request (some (0, ())), .cancel 0, .authenticate { code := .unauthenticated },
    .complete .rejection true, .done 0 true, .request (some (1, ()))]

theorem doneBefore_leaves_trace : ∃ s t : Frame Nat Unit Unit,
    run step (.init .unary) (doneBefore ++ [.authenticate {}]) = some s ∧
      run step (.init .unary) (doneBefore.filter (concerns 1) ++ [.authenticate {}]) = some t ∧
      s.ctx.context.rpc = some 1 ∧ s.ctx.isCancelled = true ∧ s.cancelled 1 = false ∧
      ¬NoTrace 1 s t := by
  refine ⟨_, _, rfl, rfl, rfl, rfl, rfl, fun h => ?_⟩
  exact absurd (h.cancelled rfl) (by decide)

theorem doneAfter_leaves_no_trace : ∃ s t : Frame Nat Unit Unit,
    run step (.init .unary) (doneAfter ++ [.authenticate {}]) = some s ∧
      run step (.init .unary) (doneAfter.filter (concerns 1) ++ [.authenticate {}]) = some t ∧
      s.ctx.context.rpc = some 1 ∧ NoTrace 1 s t := by
  have hr : run step (.init .unary : Frame Nat Unit Unit) (doneAfter ++ [.authenticate {}]) =
      some _ := rfl
  have hquiet : Guarded step Quiet (.init .unary : Frame Nat Unit Unit) doneAfter := by decide
  obtain ⟨t, ht, hiff⟩ := rejected_leave_no_trace_iff hr rfl (Eq.refl (some 1))
  exact ⟨_, t, hr, ht, rfl, hiff.mpr (.inl hquiet)⟩

end
end AsyncppGrpc.Task
