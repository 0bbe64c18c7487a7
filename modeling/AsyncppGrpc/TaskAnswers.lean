import AsyncppGrpc.TaskOutcome
import AsyncppGrpc.ServerTasks

/-! Which RPC each Finish of a task is for, and that no RPC is left unanswered when `stop` has
returned. -/
namespace AsyncppGrpc
open Run
variable {F T R Req Resp : Type*} {n : Nat}

namespace Task

/-- An RPC has reached the task and is not finished. -/
def serving (s : Frame R Req Resp) : Bool :=
  s.authenticating || match s.point with
    | .body | .operation _ => true
    | _ => false

/-- The RPC that has been started and not finished. -/
structure Answering (s : Frame R Req Resp) (answers : List (R × StreamOp Resp)) : Prop where
  accounted : Accounted s
  fresh : s.started.Nodup
  finished : answers.map Prod.snd = finishes s.trace
  idle : serving s = false → s.started = answers.map Prod.fst
  busy : serving s = true → ∃ rpc, s.ctx.stream.rpc = some rpc ∧
    s.started = answers.map Prod.fst ++ [rpc]

/-- The RPC that a step brings. -/
def arrival : Action R Req Resp → Option R
  | .request (some (rpc, _)) => some rpc
  | _ => none

section
variable [DecidableEq R] [DecidableEq Resp] [Inhabited Req]

/-- The Finish a step issues, with the RPC of the stream it is issued on. -/
def answer (s : Frame R Req Resp) (a : Action R Req Resp) : Option (R × StreamOp Resp) :=
  match s.ctx.stream.rpc, (finishes (next s a).trace)[(finishes s.trace).length]? with
  | some rpc, some op => some (rpc, op)
  | _, _ => none

variable {s s' : Frame R Req Resp} {answers : List (R × StreamOp Resp)}

/-- A step that finishes nothing and neither begins nor ends an RPC. -/
theorem Answering.goOn {a : Action R Req Resp} (h : Answering s answers)
    (hacc : Accounted (next s a)) (hfin : finishes (next s a).trace = finishes s.trace)
    (hstart : (next s a).started = s.started) (hserving : serving (next s a) = serving s)
    (hrpc : serving s = true → (next s a).ctx.stream.rpc = s.ctx.stream.rpc) :
    Answering (next s a) (answers ++ (answer s a).toList) := by
  have hnone : answer s a = none := by
    unfold answer
    rw [hfin]
    simp
  rw [hnone, Option.toList_none, List.append_nil]
  refine ⟨hacc, hstart ▸ h.fresh, by rw [h.finished, hfin], fun hs => ?_, fun hs => ?_⟩
  · rw [hstart]
    exact h.idle (hserving ▸ hs)
  · rw [hserving] at hs
    rw [hstart, hrpc hs]
    exact h.busy hs

/-- A step that finishes the RPC. -/
theorem Answering.finish {a : Action R Req Resp} (h : Answering s answers) (op : StreamOp Resp)
    (hacc : Accounted (next s a)) (hfin : finishes (next s a).trace = finishes s.trace ++ [op])
    (hstart : (next s a).started = s.started) (hs : serving s = true)
    (hs' : serving (next s a) = false) :
    Answering (next s a) (answers ++ (answer s a).toList) := by
  obtain ⟨rpc, hrpc, hstarted⟩ := h.busy hs
  have hanswer : answer s a = some (rpc, op) := by
    unfold answer
    rw [hfin, hrpc]
    simp
  rw [hanswer]
  refine ⟨hacc, hstart ▸ h.fresh, by simp [h.finished, hfin], fun _ => ?_, by simp [hs']⟩
  rw [hstart, hstarted]
  simp

/-- The body ends. -/
theorem Answering.ends {a : Action R Req Resp} (h : Answering s answers)
    (hacc : Accounted (next s a)) (hp : s.point = .body) (status : Status) (thrown : Bool)
    (hs : next s a = finalSuspend { s with
      ctx := { s.ctx with status := status }
      trace := s.trace ++ if thrown then [.hook .onUnhandledException] else [] }) :
    Answering (next s a) (answers ++ (answer s a).toList) := by
  have hauth := (h.accounted.executes hp).authenticating
  rw [finalSuspend_issues] at hs
  refine h.finish (terminalOp s.method s.ctx.response status) hacc ?_ ?_ ?_ ?_
  · rw [hs]
    cases thrown <;> simp [issue, callHook, finishes, terminalOp_status]
  · rw [hs]
    rfl
  · simp [serving, hp]
  · rw [hs]
    simp [issue, callHook, serving, hauth]

theorem answering_step {a : Action R Req Resp} (h : Answering s answers)
    (hs : step s a = some s') : Answering s' (answers ++ (answer s a).toList) := by
  have hacc := accounted_step h.accounted hs
  obtain ⟨he, rfl⟩ := stepOf_eq_some.mp hs
  cases a with
  | request call =>
    obtain ⟨hp, hpend, ha, -⟩ := h.accounted.outstanding.of_mem he.1
    have hp : s.point = .initial := hp
    have hidle : serving s = false := by simp [serving, hp, ha]
    have hnext := h.accounted.next_request he.1 call
    cases call with
    | none =>
      rw [requestHandleEvent, destroy, if_pos (by exact hp)] at hnext
      refine h.goOn hacc ?_ ?_ ?_ (by simp [hidle])
      all_goals rw [hnext]
      simp [serving, hp, ha]
    | some call =>
      have hfin : finishes (next s (.request (some call))).trace = finishes s.trace := by
        rw [hnext]
        simp [requestHandleEvent, finishes]
      have hnone : answer s (.request (some call)) = none := by
        unfold answer
        rw [hfin]
        simp
      rw [hnone, Option.toList_none, List.append_nil]
      refine ⟨hacc, ?_, by rw [h.finished, hfin], ?_, fun _ => ⟨call.1, ?_, ?_⟩⟩
      all_goals rw [hnext]
      · have hnew := he.2 call.1 rfl
        refine List.nodup_append.mpr ⟨h.fresh, List.nodup_singleton _, fun r hr b hb => ?_⟩
        rw [List.mem_singleton.mp hb]
        intro heq
        exact hnew (heq ▸ hr)
      · simp [requestHandleEvent, serving]
      · rfl
      · simp [requestHandleEvent, h.idle hidle]
  | authenticate result =>
    obtain ⟨hp, hpend, -⟩ := h.accounted.outstanding.of_authenticating he
    have hbusy : serving s = true := by simp [serving, show s.authenticating = true from he]
    have hnext := h.accounted.next_authenticate he result
    cases hr : result.ok with
    | true =>
      rw [authenticate_accepted _ hr, resume, if_pos (by exact hp)] at hnext
      refine h.goOn hacc ?_ ?_ ?_ ?_
      all_goals rw [hnext]
      · simp [callHook, finishes]
      · rfl
      · rw [hbusy]
        simp [serving]
      · simp [callHook]
    | false =>
      rw [authenticate_rejects _ hr] at hnext
      refine h.finish (rejectOp s.method result) hacc ?_ ?_ hbusy ?_
      all_goals rw [hnext]
      · simp [issue, finishes, rejectOp_status]
      · rfl
      · simp [issue, serving, hp]
  | complete tag ok =>
    obtain ⟨hat, hpend, ha, -⟩ := h.accounted.outstanding.of_mem he.2
    have hnext := h.accounted.next_complete he.2 ok
    cases tag with
    | request => exact absurd rfl he.1
    | rejection =>
      have hidle : serving s = false := by simp [serving, show s.point = .initial from hat, ha]
      refine h.goOn hacc ?_ ?_ ?_ (by simp [hidle])
      all_goals rw [hnext]
      all_goals rfl
    | operation =>
      obtain ⟨op, hop⟩ := hat
      simp only [complete, operationHandleEvent, hop, resume, if_true] at hnext
      refine h.goOn hacc ?_ ?_ ?_ ?_
      all_goals rw [hnext]
      · simp [finishes]
      · simp [serving, hop]
      · simp
    | final =>
      have hp : s.point = .final := hat
      have hidle : serving s = false := by simp [serving, hp, ha]
      simp only [complete, destroy, if_pos hp] at hnext
      refine h.goOn hacc ?_ ?_ ?_ (by simp [hidle])
      all_goals rw [hnext]
      simp [serving, hp, ha]
  | done rpc ok =>
    have hkeep : (next s (.done rpc ok)).trace = s.trace ∧
        (next s (.done rpc ok)).started = s.started ∧
        serving (next s (.done rpc ok)) = serving s ∧
        (next s (.done rpc ok)).ctx.stream = s.ctx.stream := by
      simp only [next, receiveDone, promiseHandleEvent_eq]
      split
      · exact ⟨rfl, rfl, rfl, rfl⟩
      · exact ⟨rfl, rfl, rfl, rfl⟩
    obtain ⟨htrace, hstart, hserving, hstream⟩ := hkeep
    exact h.goOn hacc (by rw [htrace]) hstart hserving fun _ => by rw [hstream]
  | cancel rpc => exact h.goOn hacc rfl rfl rfl fun _ => rfl
  | await op =>
    have hbusy : serving s = true := by simp [serving, show s.point = .body from he.1]
    have hop : op.streamOp.status = none := by cases op <;> rfl
    refine h.goOn hacc ?_ rfl ?_ fun _ => rfl
    · simp [next, await, issue, callHook, finishes, hop]
    · rw [hbusy]
      simp [next, await, issue, callHook, serving]
  | respond response => exact h.goOn hacc rfl rfl rfl fun _ => rfl
  | coReturn status =>
    exact h.ends hacc he status false (by simp [next, coReturn])
  | throws status =>
    exact h.ends hacc he status true (by simp [next, throws, callHook])

theorem started_step {a : Action R Req Resp} (h : Accounted s) (hs : step s a = some s') :
    s'.started = s.started ++ (arrival a).toList := by
  obtain ⟨he, rfl⟩ := stepOf_eq_some.mp hs
  cases a with
  | request call =>
    have hp : s.point = .initial := (h.of_mem he.1).1
    rw [h.next_request he.1]
    cases call with
    | none => simp [requestHandleEvent, destroy, hp, arrival]
    | some call => rfl
  | authenticate result =>
    obtain ⟨hp, -⟩ := h.outstanding.of_authenticating he
    rw [h.next_authenticate he]
    cases hr : result.ok with
    | true => simp [authenticate_accepted _ hr, resume, hp, callHook, arrival]
    | false => simp [authenticate_rejects _ hr, issue, arrival]
  | complete tag ok =>
    have hat := (h.of_mem he.2).1
    rw [h.next_complete he.2]
    cases tag with
    | request => exact absurd rfl he.1
    | rejection => simp [complete, rejectionHandleEvent, startGrpcCall, arrival]
    | operation =>
      obtain ⟨op, hop⟩ := hat
      simp [complete, operationHandleEvent, hop, resume, arrival]
    | final => simp [complete, destroy, show s.point = .final from hat, arrival]
  | done rpc ok =>
    simp only [next, receiveDone, promiseHandleEvent_eq, arrival]
    split <;> simp
  | cancel rpc => simp [next, arrival]
  | await op => simp [next, await, issue, callHook, arrival]
  | respond response => simp [next, arrival]
  | coReturn status => simp [next, coReturn, finalSuspend_issues, issue, callHook, arrival]
  | throws status => simp [next, throws, finalSuspend_issues, issue, callHook, arrival]

variable [Inhabited Resp] {m : RpcMethodType} {as : List (Action R Req Resp)}

theorem answering_run (hr : run step (.init m) as = some s) :
    Answering s (labels step answer (.init m) as) := by
  refine inv_of_labels ?_ (fun s bs a s' h _ hs => answering_step h hs)
    (Guarded.of_forall (fun _ _ => trivial) _ _) hr
  refine ⟨accounted_init m, ?_, rfl, fun _ => rfl, ?_⟩
  · simp [Frame.init, startGrpcCall]
  · simp [serving, Frame.init, startGrpcCall]

theorem started_run (hr : run step (.init m) as = some s) :
    s.started = as.filterMap arrival := by
  have hstarted : Accounted s ∧ s.started = as.filterMap arrival := by
    refine log_of_run (I := fun s as => Accounted s ∧ s.started = as.filterMap arrival)
      ⟨accounted_init m, rfl⟩ (fun s bs a s' h hs => ⟨accounted_step h.1 hs, ?_⟩) hr
    rw [started_step h.1 hs, h.2]
    cases ha : arrival a <;> simp [ha]
  exact hstarted.2

/-- A destroyed task has finished every RPC it was handed. -/
theorem answered_of_destroyed (hr : run step (.init m) as = some s) (hp : s.point = .destroyed) :
    (as.filterMap arrival).Nodup ∧
    (labels step answer (.init m) as).map Prod.fst = as.filterMap arrival := by
  have h := answering_run hr
  have hidle : serving s = false := by
    simp [serving, hp, (h.accounted.outstanding.of_destroyed hp).2.1]
  rw [← started_run hr]
  exact ⟨h.fresh, (h.idle hidle).symm⟩

/-- Every RPC is finished once, in its turn. The Finish operations of a task at any time of its
life are issued on the streams of the RPCs that have reached it, in their order and one each,
but for the RPC it serves. -/
theorem rpcs_finished_in_turn (hr : run step (.init m) as = some s) :
    (as.filterMap arrival).Nodup ∧
    (labels step answer (.init m) as).map Prod.snd = finishes s.trace ∧
    (serving s = false →
      (labels step answer (.init m) as).map Prod.fst = as.filterMap arrival) ∧
    (serving s = true → ∃ rpc, s.ctx.stream.rpc = some rpc ∧
      (labels step answer (.init m) as).map Prod.fst ++ [rpc] = as.filterMap arrival) := by
  have h := answering_run hr
  rw [← started_run hr]
  refine ⟨h.fresh, h.finished, fun hs => (h.idle hs).symm, fun hs => ?_⟩
  obtain ⟨rpc, hrpc, hstarted⟩ := h.busy hs
  exact ⟨rpc, hrpc, hstarted.symm⟩

theorem rejectReadThrow_finishes : ∃ s : Frame Nat Unit Unit,
    run step (.init .bidiStreaming) rejectReadThrow = some s ∧
    (labels step answer (.init .bidiStreaming) rejectReadThrow).map Prod.fst = [0, 1] := by
  have hr : run step (.init .bidiStreaming : Frame Nat Unit Unit) rejectReadThrow = some _ := rfl
  exact ⟨_, hr, (rpcs_finished_in_turn hr).2.2.1 rfl⟩

end
end Task

namespace ServerTasks
variable [DecidableEq F] [DecidableEq T] [DecidableEq R] [DecidableEq Resp] [Inhabited Req]
  [Inhabited Resp]

/-- When `stop` has returned no RPC is left unanswered: for every task, the RPCs that any worker
has handed it are those it has issued a Finish for, once each and in their order. -/
theorem stop_answers_rpcs {as : List (Action F n T R Req Resp)} {s : State F n T R Req Resp}
    (hin : Guarded step InHandler (.init : State F n T R Req Resp) as)
    (hr : run step .init as = some s) (hs : s.server.stop = .stopped) {i : Nat}
    {q : Fin n × Task.Frame R Req Resp} (hq : s.tasks[i]? = some q) :
    ∃ m, run Task.step (.init m) (as.filterMap (actOn i)) = some q.2 ∧
      ((as.filterMap (actOn i)).filterMap Task.arrival).Nodup ∧
      (labels Task.step Task.answer (.init m) (as.filterMap (actOn i))).map Prod.fst =
        (as.filterMap (actOn i)).filterMap Task.arrival ∧
      (labels Task.step Task.answer (.init m) (as.filterMap (actOn i))).map Prod.snd =
        Task.finishes q.2.trace := by
  obtain ⟨m, hm⟩ := task_run hr hq
  have hgone := gone_of_stopped hin hr hs q (List.mem_of_getElem? hq)
  obtain ⟨hfresh, hanswered⟩ := Task.answered_of_destroyed hm hgone.1
  exact ⟨m, hm, hfresh, hanswered, (Task.answering_run hm).finished⟩

theorem serveThenStop_answers : ∃ s q m, run step .init (serveThenStop 0) = some s ∧
    s.tasks[0]? = some q ∧
    (labels Task.step Task.answer (.init m) ((serveThenStop 0).filterMap (actOn 0))).map Prod.fst =
      [0] := by
  have hin : Guarded step InHandler .init (serveThenStop 0) := by decide
  have hr : run step .init (serveThenStop 0) = some _ := rfl
  obtain ⟨m, -, -, hfst, -⟩ := stop_answers_rpcs hin hr rfl (i := 0) rfl
  exact ⟨_, _, m, hr, rfl, hfst⟩

end ServerTasks
end AsyncppGrpc
