import AsyncppGrpc.TaskAccounting

/-! The done notification against the destruction of the frame: a failed request or the final
Finish destroys the frame, whatever done notifications gRPC still holds into it. -/
namespace AsyncppGrpc.Task
open Run
variable {R Req Resp : Type*}

/-- No event was handled after the frame's destruction, and what gRPC holds points into a live
frame. -/
structure LifetimeSafe (s : Frame R Req Resp) : Prop where
  fault : s.fault = none
  lateDone : s.lateDone = false
  destroyed : s.point = .destroyed → s.pending = [] ∧ s.authenticating = false ∧ s.dones = []

/-- A frame is destroyed with every done notification delivered. -/
def DonesDelivered (s : Frame R Req Resp) : Action R Req Resp → Prop
  | .request none | .complete .final _ => s.dones = []
  | _ => True

theorem LifetimeSafe.of_live {s : Frame R Req Resp} (h : Accounted s)
    (hlate : s.lateDone = false) (hp : s.point ≠ .destroyed) : LifetimeSafe s where
  fault := h.fault
  lateDone := hlate
  destroyed hd := absurd hd hp

section
variable [DecidableEq Resp] {s s' : Frame R Req Resp}

theorem lifetimeSafe_destroy_iff {p : Point Resp} (h : Woken s p) (hlate : s.lateDone = false) :
    LifetimeSafe (destroy s p) ↔ s.dones = [] := by
  have hacc := h.destroy
  rw [destroy, if_pos h.point] at hacc ⊢
  constructor
  · intro hsafe
    exact (hsafe.destroyed rfl).2.2
  · intro hdones
    exact ⟨hacc.fault, hlate, fun _ => ⟨h.pending, h.authenticating, hdones⟩⟩

theorem operationHandleEvent_point {op : Op Resp} (hp : s.point = .operation op) (ok : Bool) :
    (operationHandleEvent s ok).point = .body ∧
      (operationHandleEvent s ok).lateDone = s.lateDone := by
  simp [operationHandleEvent, hp, resume]

theorem authenticate_point (hp : s.point = .initial) (result : Status) :
    (authenticate s result).point ≠ .destroyed ∧
      (authenticate s result).lateDone = s.lateDone := by
  cases hr : result.ok with
  | true => simp [authenticate_accepted s hr, resume, callHook, hp]
  | false =>
    obtain ⟨op, heq⟩ := authenticate_rejected s hr
    simp [heq, issue, hp]

variable [DecidableEq R] [Inhabited Req]

theorem lifetimeSafe_step_iff {a : Action R Req Resp} (h : Accounted s) (hsafe : LifetimeSafe s)
    (hs : step s a = some s') : LifetimeSafe s' ↔ DonesDelivered s a := by
  have hacc := accounted_step h hs
  obtain ⟨he, rfl⟩ := stepOf_eq_some.mp hs
  cases a with
  | request call =>
    obtain ⟨hat, hw⟩ := h.of_mem he.1
    have hp : s.point = .initial := hat
    rw [h.next_request he.1] at hacc ⊢
    cases call with
    | none => exact lifetimeSafe_destroy_iff (hw _ hp) hsafe.lateDone
    | some call =>
      refine iff_of_true (.of_live hacc hsafe.lateDone ?_) trivial
      simp [requestHandleEvent, hp]
  | authenticate result =>
    obtain ⟨hp, -, -⟩ := h.outstanding.of_authenticating he
    rw [h.next_authenticate he] at hacc ⊢
    obtain ⟨hlive, hlate⟩ := authenticate_point (s := { s with authenticating := false }) hp result
    exact iff_of_true (.of_live hacc (hlate.trans hsafe.lateDone) hlive) trivial
  | complete tag ok =>
    obtain ⟨hat, hw⟩ := h.of_mem he.2
    rw [h.next_complete he.2] at hacc ⊢
    cases tag with
    | request => exact absurd rfl he.1
    | rejection =>
      have hp : s.point = .initial := hat
      refine iff_of_true (.of_live hacc hsafe.lateDone ?_) trivial
      simp [complete, rejectionHandleEvent, startGrpcCall, hp]
    | operation =>
      obtain ⟨op, hp⟩ := hat
      obtain ⟨hbody, hlate⟩ := operationHandleEvent_point (hw _ hp).point ok
      refine iff_of_true (.of_live hacc (hlate.trans hsafe.lateDone) ?_) trivial
      simp [complete, hbody]
    | final =>
      have hp : s.point = .final := hat
      exact lifetimeSafe_destroy_iff (hw _ hp) hsafe.lateDone
  | done rpc ok =>
    have hp : s.point ≠ .destroyed := by
      intro hd
      rw [Enabled, (hsafe.destroyed hd).2.2] at he
      simp at he
    simp only [next, receiveDone] at hacc ⊢
    rw [if_neg (by exact hp)] at hacc ⊢
    rw [promiseHandleEvent_eq] at hacc ⊢
    exact iff_of_true (.of_live hacc hsafe.lateDone hp) trivial
  | cancel rpc => exact iff_of_true ⟨hsafe.fault, hsafe.lateDone, hsafe.destroyed⟩ trivial
  | respond response => exact iff_of_true ⟨hsafe.fault, hsafe.lateDone, hsafe.destroyed⟩ trivial
  | await op =>
    refine iff_of_true (.of_live hacc hsafe.lateDone ?_) trivial
    simp [next, await, issue, callHook]
  | coReturn status =>
    obtain ⟨hfinal, hlate⟩ := finalSuspend_point { s with ctx := { s.ctx with status := status } }
    have hp : (coReturn s status).point = .final := hfinal
    refine iff_of_true (.of_live hacc (hlate.trans hsafe.lateDone) ?_) trivial
    simp [next, hp]
  | throws status =>
    obtain ⟨hfinal, hlate⟩ := finalSuspend_point { callHook s .onUnhandledException with
      ctx := { s.ctx with status := status } }
    have hp : (throws s status).point = .final := hfinal
    refine iff_of_true (.of_live hacc (hlate.trans hsafe.lateDone) ?_) trivial
    simp [next, hp]

/-- A frame lives for as long as gRPC holds anything into it exactly if no done notification is
outstanding when the frame is destroyed. -/
theorem lifetime_safe_iff [Inhabited Resp] {m : RpcMethodType} {as : List (Action R Req Resp)} :
    Always step LifetimeSafe (.init m : Frame R Req Resp) as ↔
      Guarded step DonesDelivered (.init m : Frame R Req Resp) as := by
  have hsafe : LifetimeSafe (.init m : Frame R Req Resp) :=
    .of_live (accounted_init m) rfl nofun
  exact always_iff_guarded_of_inv (accounted_init m) hsafe (fun _ _ _ => accounted_step)
    (fun _ _ _ => lifetimeSafe_step_iff) as

/-- The completion of Finish overtakes the RPC's done notification. -/
def finishOvertakesDone : List (Action Nat Unit Unit) :=
  [.request (some (0, ())), .authenticate {}, .coReturn {}, .complete .final true, .done 0 true]

theorem finishOvertakesDone_unsafe : ∃ s : Frame Nat Unit Unit,
    run step (.init .unary) finishOvertakesDone = some s ∧ s.point = .destroyed ∧
      s.lateDone = true ∧ ¬Always step LifetimeSafe (.init .unary) finishOvertakesDone := by
  have hr : run step (.init .unary : Frame Nat Unit Unit) finishOvertakesDone = some _ := rfl
  refine ⟨_, hr, rfl, rfl, fun h => ?_⟩
  have hlate := (h.last hr).lateDone
  exact absurd hlate (by decide)

end
end AsyncppGrpc.Task
