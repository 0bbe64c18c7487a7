import AsyncppGrpc.TaskRejection

/-! The cancelled event of a task whose hook turns nobody away: what the body learns of its
client. -/
namespace AsyncppGrpc.Task
open Run
variable {R Req Resp : Type*}

/-- The hook rejects no RPC. -/
def Accepting (_ : Frame R Req Resp) : Action R Req Resp → Prop
  | .authenticate result => result.ok = true
  | _ => True

instance (s : Frame R Req Resp) (a : Action R Req Resp) : Decidable (Accepting s a) :=
  match a with
  | .authenticate result => inferInstanceAs (Decidable (result.ok = true))
  | .request _ | .complete _ _ | .done _ _ | .cancel _ | .await _ | .respond _
  | .coReturn _ | .throws _ => instDecidableTrue

/-- No done notification sets the cancelled event: none reaches the promise while the bound RPC
is cancelled. -/
def Unheard (s : Frame R Req Resp) : Action R Req Resp → Prop
  | .done _ ok => s.point ≠ .destroyed → ok = true → isCancelled s = false
  | _ => True

/-- The frame serves one RPC. -/
structure Sole (s : Frame R Req Resp) : Prop where
  rejection : .rejection ∉ s.pending
  requested : .request ∈ s.pending → s.dones = [] ∧ s.ctx.context.rpc = none
  serves : ∀ rpc ∈ s.dones, s.ctx.context.rpc = some rpc

/-- The frame goes on with the RPC it has; the cancelled event stays as it is. -/
structure Steady (s s' : Frame R Req Resp) : Prop where
  context : s'.ctx.context = s.ctx.context
  isCancelled : s'.ctx.isCancelled = s.ctx.isCancelled
  dones : s'.dones = s.dones
  pending : ∀ tag ∈ s'.pending, tag ∈ s.pending ∨ tag = .operation ∨ tag = .final

theorem Steady.finalSuspend {s t : Frame R Req Resp} (h : Steady s t) :
    Steady s (finalSuspend t) := by
  obtain ⟨hook, op, heq⟩ := finalSuspend_eq t
  rw [heq]
  refine ⟨h.context, h.isCancelled, h.dones, fun tag ht => ?_⟩
  rcases List.mem_append.mp ht with ht | ht
  · exact h.pending tag ht
  · exact .inr (.inr (List.mem_singleton.mp ht))

theorem Steady.sole {s s' : Frame R Req Resp} (h : Sole s) (hs : Steady s s') : Sole s' where
  rejection hr := by
    have hmem := hs.pending _ hr
    simp only [reduceCtorEq, or_false] at hmem
    exact h.rejection hmem
  requested hq := by
    have hmem := hs.pending _ hq
    simp only [reduceCtorEq, or_false] at hmem
    rw [hs.dones, hs.context]
    exact h.requested hmem
  serves := by
    rw [hs.dones, hs.context]
    exact h.serves

section
variable [DecidableEq Resp]

theorem receiveDone_dones (s : Frame R Req Resp) (ok : Bool) :
    (receiveDone s ok).dones = s.dones ∧ (receiveDone s ok).pending = s.pending ∧
      (receiveDone s ok).ctx.context = s.ctx.context := by
  unfold receiveDone
  split
  · exact ⟨rfl, rfl, rfl⟩
  · rw [promiseHandleEvent_eq]
    exact ⟨rfl, rfl, rfl⟩

variable [DecidableEq R]

/-- The steps of a frame whose hook rejects no RPC. -/
inductive AcceptingStep (s : Frame R Req Resp) : Action R Req Resp → Frame R Req Resp → Prop
  | request (rpc : R) (msg : Req) (hp : s.pending = [.request]) (s' : Frame R Req Resp)
      (hs' : s' = requestHandleEvent { s with pending := [] } (some (rpc, msg))) :
      AcceptingStep s (.request (some (rpc, msg))) s'
  | done (rpc : R) (ok : Bool) (hmem : rpc ∈ s.dones) (s' : Frame R Req Resp)
      (hs' : s' = receiveDone { s with dones := s.dones.erase rpc } ok) :
      AcceptingStep s (.done rpc ok) s'
  | steady (a : Action R Req Resp) (hdone : ∀ rpc ok, a ≠ .done rpc ok) (s' : Frame R Req Resp)
      (hs' : Steady s s') : AcceptingStep s a s'

variable {s s' : Frame R Req Resp}

/-- Once bound, the RPC stays. -/
theorem sole_step {a : Action R Req Resp} (h : Sole s) (hs : AcceptingStep s a s') :
    Sole s' ∧ ∀ rpc, s.ctx.context.rpc = some rpc → s'.ctx.context.rpc = some rpc := by
  cases hs with
  | request rpc msg hp s' hs' =>
    obtain ⟨hnil, hnone⟩ := h.requested (by simp [hp])
    subst hs'
    refine ⟨⟨by simp [requestHandleEvent], by simp [requestHandleEvent], ?_⟩, by simp [hnone]⟩
    simp [requestHandleEvent, hnil]
  | done rpc ok hmem s' hs' =>
    obtain ⟨hdones, hpend, hctx⟩ := receiveDone_dones { s with dones := s.dones.erase rpc } ok
    subst hs'
    refine ⟨⟨?_, fun hq => ?_, fun r hr => ?_⟩, fun r hr => ?_⟩
    · rw [hpend]
      exact h.rejection
    · rw [hpend] at hq
      simp [(h.requested hq).1] at hmem
    · rw [hdones] at hr
      rw [hctx]
      exact h.serves r (List.mem_of_mem_erase hr)
    · rw [hctx]
      exact hr
  | steady a hdone s' hs' =>
    refine ⟨hs'.sole h, fun rpc hrpc => ?_⟩
    rw [hs'.context]
    exact hrpc

/-- The cancelled event is set by nothing but a done notification, and never reset. -/
theorem heard_step {a : Action R Req Resp} (hs : AcceptingStep s a s') :
    s'.ctx.isCancelled = true ↔ s.ctx.isCancelled = true ∨ ¬Unheard s a := by
  cases hs with
  | request rpc msg hp s' hs' => simp [hs', requestHandleEvent, Unheard]
  | done rpc ok hmem s' hs' =>
    have hc : isCancelled { s with dones := s.dones.erase rpc } = isCancelled s := rfl
    by_cases hp : s.point = .destroyed
    · simp [hs', receiveDone, hp, Unheard]
    · simp [hs', receiveDone, hp, Unheard, promiseHandleEvent_eq, hc]
  | steady a hdone s' hs' =>
    have hquiet : Unheard s a := by
      cases a with
      | done rpc ok => exact absurd rfl (hdone rpc ok)
      | _ => trivial
    simp [hs'.isCancelled, hquiet]

variable [Inhabited Req]

theorem acceptingStep_of_step {a : Action R Req Resp} (hacc : Accounted s) (h : Sole s)
    (hok : Accepting s a) (hs : step s a = some s') : AcceptingStep s a s' := by
  obtain ⟨he, rfl⟩ := stepOf_eq_some.mp hs
  cases a with
  | request call =>
    obtain ⟨hp, hpend, -⟩ := hacc.outstanding.of_mem he.1
    rw [hacc.next_request he.1]
    cases call with
    | none =>
      have hp : s.point = .initial := hp
      refine .steady _ (by simp) _ ?_
      simp only [requestHandleEvent, destroy, if_pos hp]
      exact ⟨rfl, rfl, rfl, by simp [hpend]⟩
    | some call => exact .request call.1 call.2 hpend _ (by simp [hpend])
  | authenticate result =>
    obtain ⟨hp, hpend, -⟩ := hacc.outstanding.of_authenticating he
    refine .steady _ (by simp) _ ?_
    rw [hacc.next_authenticate he, authenticate_accepted _ hok, resume, if_pos (by exact hp)]
    exact ⟨rfl, rfl, rfl, fun tag ht => .inl ht⟩
  | complete tag ok =>
    obtain ⟨hat, hpend, -⟩ := hacc.outstanding.of_mem he.2
    refine .steady _ (by simp) _ ?_
    rw [hacc.next_complete he.2]
    cases tag with
    | request => exact absurd rfl he.1
    | rejection => exact absurd he.2 h.rejection
    | operation =>
      obtain ⟨op, hop⟩ := hat
      simp only [complete, operationHandleEvent, hop, resume, if_true]
      exact ⟨rfl, rfl, rfl, by simp [hpend]⟩
    | final =>
      have hp : s.point = .final := hat
      simp only [complete, destroy, if_pos hp]
      exact ⟨rfl, rfl, rfl, by simp [hpend]⟩
  | done rpc ok => exact .done rpc ok he _ rfl
  | cancel rpc => exact .steady _ (by simp) _ ⟨rfl, rfl, rfl, fun tag ht => .inl ht⟩
  | await op =>
    refine .steady _ (by simp) _ ⟨rfl, rfl, rfl, fun tag ht => ?_⟩
    have hmem := List.mem_append.mp ht
    exact hmem.imp_right fun ht => .inl (List.mem_singleton.mp ht)
  | respond response => exact .steady _ (by simp) _ ⟨rfl, rfl, rfl, fun tag ht => .inl ht⟩
  | coReturn status =>
    refine .steady _ (by simp) _ (Steady.finalSuspend ?_)
    exact ⟨rfl, rfl, rfl, fun tag ht => .inl ht⟩
  | throws status =>
    refine .steady _ (by simp) _ (Steady.finalSuspend ?_)
    exact ⟨rfl, rfl, rfl, fun tag ht => .inl ht⟩

/-- A rejection leaves its tag. -/
theorem accepting_of_sole {a : Action R Req Resp} (hacc : Accounted s) (h' : Sole s')
    (hs : step s a = some s') : Accepting s a := by
  obtain ⟨he, rfl⟩ := stepOf_eq_some.mp hs
  cases a with
  | authenticate result =>
    by_contra hrej
    have hrej : result.ok = false := by simpa [Accepting] using hrej
    obtain ⟨op, heq⟩ := authenticate_rejected { s with authenticating := false } hrej
    have hmem := h'.rejection
    rw [hacc.next_authenticate he, heq] at hmem
    exact hmem (by simp [issue])
  | _ => trivial

variable [Inhabited Resp]

theorem always_sole {m : RpcMethodType} {as : List (Action R Req Resp)}
    (hok : Guarded step Accepting (.init m) as) :
    Always step (fun s : Frame R Req Resp => Accounted s ∧ Sole s) (.init m) as := by
  refine always_of_step ⟨accounted_init m, ?_⟩ (fun s a s' h hok hs => ?_) hok
  · constructor <;> simp [Frame.init, startGrpcCall]
  · exact ⟨accounted_step h.1 hs, (sole_step h.2 (acceptingStep_of_step h.1 h.2 hok hs)).1⟩

theorem heard_run {m : RpcMethodType} {as : List (Action R Req Resp)} {s : Frame R Req Resp}
    (hok : Guarded step Accepting (.init m) as) (hr : run step (.init m) as = some s) :
    s.ctx.isCancelled = true ↔ ¬Guarded step Unheard (.init m) as := by
  have hstep : ∀ (s : Frame R Req Resp) a s', Accounted s ∧ Sole s → Accounted s' ∧ Sole s' →
      step s a = some s' → (s'.ctx.isCancelled = true ↔ s.ctx.isCancelled = true ∨ ¬Unheard s a) :=
    fun s a s' h h' hs =>
      heard_step (acceptingStep_of_step h.1 h.2 (accepting_of_sole h.1 h'.2 hs) hs)
  simpa [Frame.init, startGrpcCall] using raised_iff (always_sole hok) hstep hr

/-- The RPC a frame is bound to is the one of any done notification it still gets. -/
theorem serves_of_dones {m : RpcMethodType} {bs cs : List (Action R Req Resp)}
    {u s : Frame R Req Resp} {rpc : R} (hok : Guarded step Accepting (.init m) (bs ++ cs))
    (hu : run step (.init m) bs = some u) (hr : run step u cs = some s) (hmem : rpc ∈ u.dones) :
    u.ctx.context.rpc = some rpc ∧ s.ctx.context.rpc = some rpc := by
  obtain ⟨hbs, hcs⟩ := hok.of_append
  obtain ⟨hacc, hsole⟩ := (always_sole hbs).last hu
  have hrpc := hsole.serves rpc hmem
  have hinv := inv_of_step
    (P := fun s : Frame R Req Resp => (Accounted s ∧ Sole s) ∧ s.ctx.context.rpc = some rpc)
    ⟨⟨hacc, hsole⟩, hrpc⟩ (fun s a s' h hok hs => ?_) (hcs u hu) hr
  · exact ⟨hrpc, hinv.2⟩
  · obtain ⟨hsole', hstay⟩ := sole_step h.1.2 (acceptingStep_of_step h.1.1 h.1.2 hok hs)
    exact ⟨⟨accounted_step h.1.1 hs, hsole'⟩, hstay rpc h.2⟩

/-- What the body learns of its client. If the hook rejects nobody, the cancelled event of a task
that serves `rpc` is set exactly if the done notification of `rpc` has reached the live frame
with ok after `rpc` had been cancelled. -/
theorem cancelled_iff {m : RpcMethodType} {as : List (Action R Req Resp)} {s : Frame R Req Resp}
    {rpc : R} (hok : Guarded step Accepting (.init m) as)
    (hr : run step (.init m) as = some s) (hrpc : s.ctx.context.rpc = some rpc) :
    s.ctx.isCancelled = true ↔ ∃ bs cs u, as = bs ++ .done rpc true :: cs ∧
      run step (.init m) bs = some u ∧ u.point ≠ .destroyed ∧ u.cancelled rpc = true := by
  rw [heard_run hok hr, not_guarded_iff hr]
  constructor
  · intro ⟨bs, a, cs, u, has, hu, hheard⟩
    subst has
    rw [run_append, hu, Option.bind_some] at hr
    obtain ⟨v, hv, -⟩ := run_cons_eq_some.mp hr
    cases a with
    | done r ok =>
      simp only [Unheard, not_forall, Bool.not_eq_false] at hheard
      obtain ⟨hlive, rfl, hcancelled⟩ := hheard
      obtain ⟨hur, hsr⟩ := serves_of_dones hok hu hr (stepOf_eq_some.mp hv).1
      obtain rfl : rpc = r := by simpa [hrpc] using hsr
      rw [isCancelled_of_rpc hur] at hcancelled
      exact ⟨bs, cs, u, rfl, hu, hlive, hcancelled⟩
    | _ => exact absurd trivial hheard
  · intro ⟨bs, cs, u, has, hu, hlive, hcancelled⟩
    subst has
    rw [run_append, hu, Option.bind_some] at hr
    obtain ⟨v, hv, -⟩ := run_cons_eq_some.mp hr
    obtain ⟨hur, -⟩ := serves_of_dones hok hu hr (stepOf_eq_some.mp hv).1
    rw [← isCancelled_of_rpc hur] at hcancelled
    exact ⟨bs, _, cs, u, rfl, hu, fun hun => by simp [hun hlive rfl] at hcancelled⟩

/-- The client of RPC 0 cancels while the body executes, which is told before it ends. -/
def cancelInBody : List (Action Nat Unit Unit) :=
  [.request (some (0, ())), .authenticate {}, .cancel 0, .done 0 true, .coReturn {}]

theorem cancelInBody_cancelled : ∃ s : Frame Nat Unit Unit,
    run step (.init .unary) cancelInBody = some s ∧ s.ctx.isCancelled = true := by
  have hr : run step (.init .unary : Frame Nat Unit Unit) cancelInBody = some _ := rfl
  have hok : Guarded step Accepting (.init .unary : Frame Nat Unit Unit) cancelInBody := by decide
  refine ⟨_, hr, (cancelled_iff hok hr rfl).mpr ?_⟩
  exact ⟨cancelInBody.take 3, [.coReturn {}], _, rfl, rfl, nofun, rfl⟩

end
end AsyncppGrpc.Task
