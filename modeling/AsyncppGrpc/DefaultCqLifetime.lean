import AsyncppGrpc.CallMemory
import AsyncppGrpc.DefaultCq

/-! How long the default queue lives. The awaiter of a unary call and the state of a streaming
call keep their `shared_ptr` to it for as long as they have an operation on it. -/
namespace AsyncppGrpc
open Run

namespace Call
variable {m : RpcMethodType}

/-- The state has its `default_client_cq`, or is deleted with nothing in flight. -/
def Kept (s : State m) : Prop := s.defaultClientCq = true ∨ s.life = .deleted ∧ s.pending = []

theorem Kept.held {s : State m} (h : Kept s) (hlive : s.life ≠ .deleted) :
    s.defaultClientCq = true :=
  h.resolve_right fun hd => hlive hd.1

theorem kept_step {s s' : State m} {a : Action} (h : HeldInv s) (hk : Kept s)
    (hs : step s a = some s') : Kept s' := by
  obtain ⟨⟨hf, he⟩, rfl⟩ := stepOf_eq_some.mp hs
  have hh := h hf
  cases a with
  | start nullCq =>
    have hcq := hk.held (by simp [he.1])
    exact .inl (by simp [next, start, awaitSuspend, hcq])
  | await op =>
    have hcq := hk.held (by simp [he.2.2.1])
    exact .inl (by simpa [next] using hcq)
  | store =>
    rcases hk with hcq | ⟨hlife, hp⟩
    · exact .inl (by simpa [next] using hcq)
    · exact .inr (by simp [next, store, hlife, hp])
  | storeStale =>
    rcases hk with hcq | ⟨hlife, hp⟩
    · exact .inl (by simpa [next] using hcq)
    · exact .inr (by simp [next, storeStale, hlife, hp])
  | complete tag ok status =>
    have hcq : s.defaultClientCq = true := by
      refine hk.held fun hd => ?_
      simp [hh.deleted hd] at he
    rcases hh.inFlight.complete_cases he ok status with
      ⟨a, evt, op, -, -, -, -, heq⟩ | ⟨evt, op, -, -, -, -, heq⟩
    · refine .inl ?_
      simp only [next, heq]
      simpa using hcq
    · simp only [next, heq]
      cases evt with
      | zero => exact .inl (by simpa [stateHandleEvent] using hcq)
      | succ k =>
        rw [stateHandleEvent, resetStream_of_idle rfl]
        · exact .inr ⟨rfl, rfl⟩
        · simp
  | destroy =>
    have hcq := hk.held (by simp [he.1])
    by_cases hstream : s.stream = true
    · exact .inl (by simpa [next, destruct, hstream] using hcq)
    · refine .inr ?_
      simpa [next, destruct, hstream, deleteThis] using hh.inFlight.running he.2 he.1

end Call

namespace DefaultCq
open ClientCq (Thread)
variable {A O T : Type*} {m : O → RpcMethodType}

/-- Every call once started on the default queue keeps it. -/
def Keeping (s : State A O T m) (as : List (Action A O T)) : Prop :=
  ∀ o, Call.HeldInv (s.call o) ∧
    ((∃ t, .call t o (.start true) ∈ as) → Call.Kept (s.call o))

variable [DecidableEq O]

theorem callNext_call (s : State A O T m) (t : Thread T) (o : O) (c : Call.State (m o)) :
    (callNext s t o c).call = Function.update s.call o c := by
  unfold callNext
  split <;> rfl

variable [DecidableEq A] [DecidableEq T]

theorem keeping_step {s s' : State A O T m} {as : List (Action A O T)} {a : Action A O T}
    (h : Keeping s as) (hs : step s a = some s') : Keeping s' (as ++ [a]) := by
  obtain ⟨⟨-, he⟩, rfl⟩ := stepOf_eq_some.mp hs
  intro o
  have hold : ∀ b : Action A O T, (∀ t, b ≠ .call t o (.start true)) →
      (∃ t, .call t o (.start true) ∈ as ++ [b]) → Call.Kept (s.call o) := by
    intro b hb ⟨t, ht⟩
    rcases List.mem_append.mp ht with hmem | hnew
    · exact (h o).2 ⟨t, hmem⟩
    · exact absurd (List.mem_singleton.mp hnew).symm (hb t)
  cases a with
  | call t p act =>
    simp only [next, callNext_call]
    by_cases hop : o = p
    · subst p
      have hstep : Call.step (s.call o) act = some (Call.next (s.call o) act) :=
        stepOf_eq_some.mpr ⟨he.1, rfl⟩
      rw [Function.update_self]
      refine ⟨Call.heldInv_step (h o).1 hstep, fun hmem => ?_⟩
      by_cases hstart : act = .start true
      · subst act
        exact .inl (by simp [Call.next, Call.start, Call.awaitSuspend])
      · exact Call.kept_step (h o).1 (hold _ (by simp [hstart]) hmem) hstep
    · rw [Function.update_of_ne hop]
      exact ⟨(h o).1, hold _ (by simp [Ne.symm hop])⟩
  | _ => exact ⟨(h o).1, hold _ (by simp)⟩

/-- The last reference to the default queue is dropped when the static instance is destroyed and
no awaiter and no state has one; by then every unary call on it has been resumed, and the state
of every streaming call started on it is deleted with nothing in flight. -/
theorem default_cq_outlives [Fintype A] [Fintype O] {as : List (Action A O T)}
    {s : State A O T m} (hr : run step .init as = some s) :
    (s.destroyedBy ≠ none ↔ s.static = false ∧ Unheld s) ∧
    (s.destroyedBy ≠ none → (∀ a, s.unary a ≠ .suspended) ∧
      ∀ t o, .call t o (.start true) ∈ as →
        (s.call o).life = .deleted ∧ (s.call o).pending = []) := by
  have hview : view (.init : State A O T m) = .init :=
    SharedPtr.State.ext rfl (by funext p; cases p <;> rfl) rfl rfl
  have hrun := run_labels views_step hr
  rw [hview] at hrun
  have hiff : s.destroyedBy ≠ none ↔ s.static = false ∧ Unheld s := by
    simpa [view, Unheld] using SharedPtr.destroyed_iff hrun
  have hkeeping : Keeping s as := by
    refine log_of_run ?_ (fun _ _ _ _ => keeping_step) hr
    exact fun o => ⟨fun _ => Call.held_init, by simp⟩
  refine ⟨hiff, fun hdes => ?_⟩
  obtain ⟨-, hunary, hcall⟩ := hiff.mp hdes
  refine ⟨fun a ha => ?_, fun t o ht => ?_⟩
  · have hnone := hunary a
    simp [ha, Unary.holds] at hnone
  · rcases (hkeeping o).2 ⟨t, ht⟩ with hcq | hdel
    · simp [hcall o] at hcq
    · exact hdel

theorem exitLast_outlives :
    ∃ s, run step (.init : State Unit Unit Unit fun _ => .clientStreaming) exitLast = some s ∧
      s.destroyedBy ≠ none ∧ s.unary () ≠ .suspended ∧ (s.call ()).life = .deleted ∧
      (s.call ()).pending = [] := by
  have hr : run step (.init : State Unit Unit Unit fun _ => .clientStreaming) exitLast =
      some _ := rfl
  obtain ⟨-, hdone⟩ := default_cq_outlives hr
  obtain ⟨hunary, hcall⟩ := hdone (by decide)
  exact ⟨_, hr, by decide, hunary (), hcall (.external ()) () (by simp [exitLast])⟩

end DefaultCq
end AsyncppGrpc
