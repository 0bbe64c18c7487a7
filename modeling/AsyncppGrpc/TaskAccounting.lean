import AsyncppGrpc.Task
import AsyncppGrpc.Library.Pool

/-! What is outstanding into a task frame at each point: a frame that neither executes nor is
destroyed waits for exactly one wake-up. -/
namespace AsyncppGrpc.Task
open Run
variable {R Req Resp : Type*}

/-- What wakes a frame up, the done notifications aside. -/
inductive Wakeup where
  | tag (tag : Tag)
  | authentication
  deriving DecidableEq

/-- The operation tags and the authentication callback that may be outstanding at each point,
with the number of destructions so far. -/
inductive Accounts : Point Resp → List Tag → Bool → Nat → Prop
  | request : Accounts .initial [.request] false 0
  | authentication : Accounts .initial [] true 0
  | rejection : Accounts .initial [.rejection] false 0
  | body : Accounts .body [] false 0
  | operation (op : Op Resp) : Accounts (.operation op) [.operation] false 0
  | final : Accounts .final [.final] false 0
  | destroyed : Accounts .destroyed [] false 1

structure Accounted (s : Frame R Req Resp) : Prop where
  fault : s.fault = none
  outstanding : Accounts s.point s.pending s.authenticating s.destroys

/-- The point an operation tag finds the coroutine at. -/
def Tag.At : Tag → Point Resp → Prop
  | .request, p | .rejection, p => p = .initial
  | .operation, p => ∃ op, p = .operation op
  | .final, p => p = .final

theorem Tag.At.live {tag : Tag} {p : Point Resp} (h : tag.At p) : p ≠ .destroyed := by
  cases tag with
  | operation =>
    obtain ⟨op, rfl⟩ := h
    simp
  | _ => simp [show p = _ from h]

def Wakeup.At : Wakeup → Point Resp → Prop
  | .tag t, p => t.At p
  | .authentication, p => p = .initial

section
variable {p : Point Resp} {pending : List Tag} {authenticating : Bool} {destroys : Nat}

theorem Accounts.of_mem (h : Accounts p pending authenticating destroys) {tag : Tag}
    (ht : tag ∈ pending) :
    tag.At p ∧ pending = [tag] ∧ authenticating = false ∧ destroys = 0 := by
  cases h <;> simp_all [Tag.At]

theorem Accounts.of_authenticating (h : Accounts p pending authenticating destroys)
    (ha : authenticating = true) : p = .initial ∧ pending = [] ∧ destroys = 0 := by
  cases h <;> simp_all

theorem Accounts.of_body (h : Accounts p pending authenticating destroys) (hp : p = .body) :
    pending = [] ∧ authenticating = false ∧ destroys = 0 := by
  cases h <;> simp_all

theorem Accounts.of_destroyed (h : Accounts p pending authenticating destroys)
    (hp : p = .destroyed) : pending = [] ∧ authenticating = false ∧ destroys = 1 := by
  cases h <;> simp_all

end

/-- A frame at point `p` that has got its only wake-up, or executes. -/
structure Woken (s : Frame R Req Resp) (p : Point Resp) : Prop where
  fault : s.fault = none
  point : s.point = p
  pending : s.pending = []
  authenticating : s.authenticating = false
  destroys : s.destroys = 0

section
variable {s s' : Frame R Req Resp}

theorem Accounted.frame (h : Accounted s) (hf : s'.fault = s.fault)
    (hp : s'.point = s.point) (hpend : s'.pending = s.pending)
    (ha : s'.authenticating = s.authenticating) (hd : s'.destroys = s.destroys) :
    Accounted s' where
  fault := hf.trans h.fault
  outstanding := by
    rw [hp, hpend, ha, hd]
    exact h.outstanding

theorem accounted_init [Inhabited Req] [Inhabited Resp] (m : RpcMethodType) :
    Accounted (.init m : Frame R Req Resp) where
  fault := rfl
  outstanding := .request

theorem Accounted.executes (h : Accounted s) (hp : s.point = .body) : Woken s .body := by
  obtain ⟨hpend, ha, hd⟩ := h.outstanding.of_body hp
  exact ⟨h.fault, hp, hpend, ha, hd⟩

/-- An operation tag finds the frame waiting for it and for nothing else. -/
theorem Accounted.of_mem (h : Accounted s) {tag : Tag} (ht : tag ∈ s.pending) :
    tag.At s.point ∧ ∀ p, s.point = p → Woken { s with pending := s.pending.erase tag } p := by
  obtain ⟨hat, hpend, ha, hd⟩ := h.outstanding.of_mem ht
  refine ⟨hat, fun p hp => ⟨h.fault, hp, ?_, ha, hd⟩⟩
  simp [hpend]

theorem Woken.rejectionHandleEvent [Inhabited Req] (h : Woken s .initial) :
    Accounted (rejectionHandleEvent s) := by
  refine ⟨h.fault, ?_⟩
  simp only [Task.rejectionHandleEvent, startGrpcCall, h.point, h.pending, h.authenticating,
    h.destroys]
  exact .request

theorem Woken.await (h : Woken s .body) (op : Op Resp) : Accounted (await s op) := by
  refine ⟨h.fault, ?_⟩
  simp only [Task.await, callHook, issue, h.pending, h.authenticating, h.destroys]
  exact .operation op

theorem Woken.finalSuspend (h : Woken s .body) : Accounted (finalSuspend s) := by
  obtain ⟨hook, op, heq⟩ := finalSuspend_eq s
  rw [heq]
  refine ⟨h.fault, ?_⟩
  simp only [callHook, issue, h.pending, h.authenticating, h.destroys]
  exact .final

theorem Accounted.promiseHandleEvent (h : Accounted s) (ok : Bool) :
    Accounted (promiseHandleEvent s ok) := by
  rw [promiseHandleEvent_eq]
  exact h.frame rfl rfl rfl rfl rfl
end

section
variable [DecidableEq Resp] {s s' : Frame R Req Resp}

theorem Woken.destroy {p : Point Resp} (h : Woken s p) : Accounted (destroy s p) := by
  rw [Task.destroy, if_pos h.point]
  refine ⟨h.fault, ?_⟩
  simp only [h.pending, h.authenticating, h.destroys]
  exact .destroyed

theorem Woken.resume {p : Point Resp} (h : Woken s p) : Accounted (resume s p) := by
  rw [Task.resume, if_pos h.point]
  refine ⟨h.fault, ?_⟩
  simp only [h.pending, h.authenticating, h.destroys]
  exact .body

theorem Woken.requestHandleEvent (h : Woken s .initial) (call : Option (R × Req)) :
    Accounted (requestHandleEvent s call) := by
  cases call with
  | none => exact h.destroy
  | some call =>
    refine ⟨h.fault, ?_⟩
    simp only [Task.requestHandleEvent, h.point, h.pending, h.destroys]
    exact .authentication

theorem Woken.authenticate (h : Woken s .initial) (result : Status) :
    Accounted (authenticate s result) := by
  cases hr : result.ok with
  | true =>
    rw [authenticate_accepted s hr]
    refine Woken.resume ?_
    exact ⟨h.fault, h.point, h.pending, h.authenticating, h.destroys⟩
  | false =>
    obtain ⟨op, heq⟩ := authenticate_rejected s hr
    rw [heq]
    refine ⟨h.fault, ?_⟩
    simp only [issue, h.point, h.pending, h.authenticating, h.destroys]
    exact .rejection

theorem Woken.operationHandleEvent {op : Op Resp} (h : Woken s (.operation op)) (ok : Bool) :
    Accounted (operationHandleEvent s ok) := by
  have hp := h.point
  unfold Task.operationHandleEvent
  split
  · rename_i op' hop
    obtain rfl : op' = op := by simpa [hop] using hp
    refine Woken.resume ?_
    exact ⟨h.fault, hop, h.pending, h.authenticating, h.destroys⟩
  · simp_all

/-- A done notification changes nothing but the cancelled event. -/
theorem Accounted.receiveDone (h : Accounted s) (ok : Bool) : Accounted (receiveDone s ok) := by
  unfold Task.receiveDone
  split
  · exact h.frame rfl rfl rfl rfl rfl
  · exact h.promiseHandleEvent ok

variable [DecidableEq R] [Inhabited Req]

/-- What gRPC and the hook deliver meets a live frame. -/
theorem Accounted.next_request (h : Accounted s) (ht : .request ∈ s.pending)
    (call : Option (R × Req)) : next s (.request call) =
      requestHandleEvent { s with pending := s.pending.erase .request } call := by
  simp only [next]
  rw [receive_of_live]
  exact (h.of_mem ht).1.live

theorem Accounted.next_authenticate (h : Accounted s) (ha : s.authenticating = true)
    (result : Status) :
    next s (.authenticate result) = authenticate { s with authenticating := false } result := by
  simp only [next]
  rw [receive_of_live]
  simp [(h.outstanding.of_authenticating ha).1]

theorem Accounted.next_complete (h : Accounted s) {tag : Tag} (ht : tag ∈ s.pending)
    (ok : Bool) : next s (.complete tag ok) =
      Task.complete { s with pending := s.pending.erase tag } tag ok := by
  simp only [next]
  rw [receive_of_live]
  exact (h.of_mem ht).1.live

theorem Accounted.complete (h : Accounted s) {tag : Tag} (htag : tag ≠ .request)
    (ht : tag ∈ s.pending) (ok : Bool) : Accounted (next s (.complete tag ok)) := by
  obtain ⟨hat, hw⟩ := h.of_mem ht
  rw [h.next_complete ht]
  cases tag with
  | request => exact absurd rfl htag
  | rejection =>
    exact (hw _ hat).rejectionHandleEvent
  | operation =>
    obtain ⟨op, hp⟩ := hat
    exact (hw _ hp).operationHandleEvent ok
  | final => exact (hw _ hat).destroy

theorem accounted_step {a : Action R Req Resp} (h : Accounted s) (hs : step s a = some s') :
    Accounted s' := by
  obtain ⟨he, rfl⟩ := stepOf_eq_some.mp hs
  cases a with
  | request call =>
    obtain ⟨hat, hw⟩ := h.of_mem he.1
    rw [h.next_request he.1]
    exact (hw _ hat).requestHandleEvent call
  | authenticate result =>
    obtain ⟨hp, hpend, hd⟩ := h.outstanding.of_authenticating he
    rw [h.next_authenticate he]
    refine Woken.authenticate ?_ result
    exact ⟨h.fault, hp, hpend, rfl, hd⟩
  | complete tag ok => exact h.complete he.1 he.2 ok
  | done rpc ok =>
    refine Accounted.receiveDone ?_ ok
    exact h.frame rfl rfl rfl rfl rfl
  | cancel rpc => exact h.frame rfl rfl rfl rfl rfl
  | await op => exact (h.executes he.1).await op
  | respond response => exact h.frame rfl rfl rfl rfl rfl
  | coReturn status =>
    have hw := h.executes he
    refine Woken.finalSuspend ?_
    exact ⟨hw.fault, hw.point, hw.pending, hw.authenticating, hw.destroys⟩
  | throws status =>
    have hw := h.executes he
    refine Woken.finalSuspend ?_
    exact ⟨hw.fault, hw.point, hw.pending, hw.authenticating, hw.destroys⟩

theorem accounted_run [Inhabited Resp] {m : RpcMethodType} {as : List (Action R Req Resp)}
    {s : Frame R Req Resp} (hr : run step (.init m) as = some s) : Accounted s :=
  inv_of_run (accounted_init m) (fun _ _ _ => accounted_step) hr

end
end AsyncppGrpc.Task
