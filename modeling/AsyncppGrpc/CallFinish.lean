import AsyncppGrpc.CallContract

/-! `finish` after each way to half-close: its two phases, what it is resumed by and what it
returns. -/
namespace AsyncppGrpc.Call
open Run StreamContract
variable {m : RpcMethodType}

/-- `finish` is handed the completion of Finish: its outcome and the status gRPC has stored. -/
def finishCompletion : Action → Option (Bool × Status)
  | .complete ⟨.awaiter, _, .finish⟩ ok status => some (ok, status)
  | _ => none

def finishCompletions (as : List Action) : List (Bool × Status) := as.filterMap finishCompletion

/-- The status stored for the RPC, unless the completion failed. -/
def finishStatus : Bool × Status → Status
  | (true, status) => status
  | (false, _) => { code := .unknown, message := "Event returned ok=false" }

/-- What the `finish` awaiters resumed so far have returned. -/
def returned (s : State m) : List Status :=
  (s.resumed.filter fun a => a.op = .finish).map fun a => a.status

/-- A call whose `finish` is awaited: the half-close it owes, then Finish, then the coroutine
resumed. The list is what `finish` was handed of Finish. -/
inductive Finishing (s : State m) : List (Bool × Status) → Prop
  | halfClosing (a : Awaiter) : Suspended s a ⟨.awaiter, 0, .writesDone⟩ → a.op = .finish →
      issued Op.role .finish s.log = 0 → returned s = [] → Finishing s []
  | finishing (a : Awaiter) : Suspended s a ⟨.awaiter, 1, .finish⟩ → a.op = .finish →
      issued Op.role .finish s.log = 1 → returned s = [] → Finishing s []
  | finished (completion : Bool × Status) : s.awaiting = none → s.pending = [] →
      issued Op.role .finish s.log = 1 → returned s = [finishStatus completion] →
      Finishing s [completion]

/-- The statuses returned against the completions of Finish. -/
structure Reports (s : State m) (done : List (Bool × Status)) : Prop where
  returned : returned s = done.map finishStatus
  waiting : .finish ∉ s.awaited ∨ s.awaiting ≠ none → done = []
  once : .finish ∈ s.awaited → s.awaiting = none → ∃ completion, done = [completion]
  kept : .finish ∈ s.awaited → s.life ≠ .detached

theorem reports_init : Reports (.init : State m) [] where
  returned := rfl
  waiting _ := rfl
  once h := by simp [State.init] at h
  kept h := by simp [State.init] at h

theorem returned_congr {s s' : State m} (h : s'.resumed = s.resumed) :
    returned s' = returned s := by
  rw [Call.returned, h, Call.returned]

theorem returned_concat {s s' : State m} {a : Awaiter} (h : s'.resumed = s.resumed ++ [a]) :
    returned s' = returned s ++ if a.op = .finish then [a.status] else [] := by
  rw [Call.returned, h, Call.returned]
  by_cases hf : a.op = .finish <;> simp [hf]

/-- Before `finish` is awaited nothing is returned. -/
theorem Reports.unawaited {s : State m} {done : List (Bool × Status)} (h : Reports s done)
    (hf : .finish ∉ s.awaited) : done = [] ∧ Call.returned s = [] := by
  obtain rfl := h.waiting (.inl hf)
  exact ⟨rfl, h.returned⟩

theorem Reports.of_unawaited {s : State m} (hf : .finish ∉ s.awaited)
    (hret : Call.returned s = []) : Reports s [] where
  returned := hret
  waiting _ := rfl
  once h := absurd h hf
  kept h := absurd h hf

theorem Reports.of_suspended {s : State m} {a : Awaiter} (ha : s.awaiting = some a)
    (hlife : s.life = .owned) (hret : Call.returned s = []) : Reports s [] where
  returned := hret
  waiting _ := rfl
  once _ hn := by simp [ha] at hn
  kept _ := by simp [hlife]

theorem finishCompletion_of_ne {tag : Tag} (h : tag.op ≠ .finish) (ok : Bool) (status : Status) :
    finishCompletion (.complete tag ok status) = none := by
  obtain ⟨receiver, evt, op⟩ := tag
  cases op <;> cases receiver <;> simp_all [finishCompletion]

theorem Situation.started {s : State m} {w : Wire Op} (h : Situation s w) :
    s.awaited = [] ∨ .start ∈ s.awaited := by
  cases h with
  | idle _ _ _ _ hawaited => exact .inl hawaited
  | starting _ _ _ _ _ _ hawaited => exact .inr (by simp [hawaited])
  | failed _ _ _ hs => exact .inr hs
  | ready _ _ _ hact => exact .inr hact.started
  | operating _ _ _ hact => exact .inr hact.started
  | closing _ _ _ hact => exact .inr hact.started
  | finishing _ _ _ hact => exact .inr hact.started
  | abandonedClosing _ _ _ hact => exact .inr hact.started
  | abandonedFinishing _ _ _ hact => exact .inr hact.started
  | finished _ _ _ _ hs => exact .inr hs

/-- Once `finish` has returned the destructor finds no stream. -/
theorem Situation.finish_stream {s : State m} {w : Wire Op} (h : Situation s w)
    (hlife : s.life = .owned) (hawaiting : s.awaiting = none) (hf : .finish ∈ s.awaited) :
    s.stream = false := by
  cases h with
  | idle _ hstream => exact hstream
  | starting _ hsus => simp [hsus.awaiting] at hawaiting
  | failed _ hstream => exact hstream
  | ready _ _ _ _ howes => exact absurd hf howes.finish
  | operating _ _ hsus => simp [hsus.awaiting] at hawaiting
  | closing _ hsus => simp [hsus.awaiting] at hawaiting
  | finishing _ hsus => simp [hsus.awaiting] at hawaiting
  | abandonedClosing hd => simp [hlife] at hd
  | abandonedFinishing hd => simp [hlife] at hd
  | finished _ _ hstream => exact hstream

theorem Reports.await {s : State m} {done : List (Bool × Status)} (h : Reports s done) {op : Op}
    (hs : op ≠ .start) (hf : .finish ∉ s.awaited) (hlife : s.life = .owned) :
    Reports (await s op) done := by
  obtain ⟨rfl, hret⟩ := h.unawaited hf
  rcases await_eq s hs with heq | ⟨op', evt, -, heq⟩
  · rw [heq]
    exact .of_unawaited hf hret
  · rw [heq]
    apply Reports.of_suspended (a := { op := op })
    · simp
    · simpa using hlife
    · rw [returned_congr (s := s) (by simp)]
      exact hret

theorem Reports.destruct {s : State m} {w : Wire Op} {done : List (Bool × Status)}
    (h : Reports s done) (hsit : Situation s w) (hlife : s.life = .owned)
    (hawaiting : s.awaiting = none) : Reports (destruct s) done := by
  by_cases hstream : s.stream = true
  · have hf : .finish ∉ s.awaited := by
      intro hf
      simp [hsit.finish_stream hlife hawaiting hf] at hstream
    obtain ⟨rfl, hret⟩ := h.unawaited hf
    obtain ⟨op, evt, -, heq⟩ := issueLast_eq { s with cancelled := true, life := .detached }
      .state
    rw [Call.destruct, if_pos hstream, heq]
    apply Reports.of_unawaited
    · simpa using hf
    · rw [returned_congr (s := s) (by simp)]
      exact hret
  · rw [Call.destruct, if_neg hstream]
    exact ⟨h.returned, h.waiting, h.once, by simp [deleteThis]⟩

theorem Reports.congr {s s' : State m} {done : List (Bool × Status)} (h : Reports s done)
    (hawaited : s'.awaited = s.awaited) (hawaiting : s'.awaiting = s.awaiting)
    (hresumed : s'.resumed = s.resumed) (hlife : s'.life = s.life) : Reports s' done where
  returned := (returned_congr hresumed).trans h.returned
  waiting hw := h.waiting (by rwa [hawaited, hawaiting] at hw)
  once hf ha := h.once (hawaited ▸ hf) (hawaiting ▸ ha)
  kept hf := hlife ▸ h.kept (hawaited ▸ hf)

theorem Reports.store {s : State m} {done : List (Bool × Status)} (h : Reports s done) :
    Reports (store s) done ∧ Reports (storeStale s) done := by
  constructor <;> exact h.congr (by simp [Call.store, Call.storeStale])
    (by simp [Call.store, Call.storeStale]) (by simp [Call.store, Call.storeStale])
    (by simp [Call.store, Call.storeStale])

/-- The half-close of `finish` goes on to Finish. -/
theorem complete_closing_eq {s : State m} {a : Awaiter}
    (hsus : Suspended s a ⟨.awaiter, 0, .writesDone⟩) (ha : a.op = .finish) (ok : Bool)
    (status : Status) : ∃ b : Awaiter, b.op = .finish ∧
      complete s ⟨.awaiter, 0, .writesDone⟩ ok status = issue { s with
        pending := [], log := s.log ++ [.done .writesDone ok], awaiting := some b }
        .finish .awaiter 1 := by
  rw [complete_awaiter hsus.awaiting hsus.pending]
  simp only [awaiterHandleEvent, ha]
  obtain ⟨op, wasOk, old⟩ := a
  obtain rfl : op = .finish := ha
  cases ok with
  | true => exact ⟨⟨.finish, wasOk, old⟩, rfl, by simp⟩
  | false => exact ⟨⟨.finish, wasOk, finishStatus (false, status)⟩, rfl, by simp [finishStatus]⟩

/-- The completion of Finish resumes the coroutine with its status, whatever became of the
half-close. -/
theorem complete_finish_eq {s : State m} {a : Awaiter}
    (hsus : Suspended s a ⟨.awaiter, 1, .finish⟩) (ha : a.op = .finish) (ok : Bool)
    (status : Status) : ∃ b : Awaiter, b.op = .finish ∧ b.status = finishStatus (ok, status) ∧
      complete s ⟨.awaiter, 1, .finish⟩ ok status = resume { s with
        pending := [], log := s.log ++ [.done .finish ok], stream := false } b := by
  rw [complete_awaiter hsus.awaiting hsus.pending]
  simp only [awaiterHandleEvent, ha]
  rw [resetStream_of_idle (by rfl)]
  cases ok with
  | true => exact ⟨{ a with status := status }, ha, rfl, by simp [ha]⟩
  | false =>
    exact ⟨{ a with status := finishStatus (false, status) }, ha, rfl, by simp [ha, finishStatus]⟩

theorem Reports.complete_finish {s : State m} {a : Awaiter} {done : List (Bool × Status)}
    (h : Reports s done) (hsus : Suspended s a ⟨.awaiter, 1, .finish⟩) (ha : a.op = .finish)
    (hfin : .finish ∈ s.awaited) (ok : Bool) (status : Status) :
    Reports (complete s ⟨.awaiter, 1, .finish⟩ ok status) (done ++ [(ok, status)]) := by
  obtain rfl := h.waiting (.inr (by simp [hsus.awaiting]))
  obtain ⟨b, hb, hstatus, heq⟩ := complete_finish_eq hsus ha ok status
  rw [heq]
  refine ⟨?_, ?_, fun _ _ => ⟨(ok, status), rfl⟩, ?_⟩
  · rw [returned_concat (s := s) rfl, if_pos hb, hstatus, h.returned]
    rfl
  · intro hor
    rcases hor with hn | hn
    · exact absurd hfin hn
    · simp [resume] at hn
  · simp [resume, hsus.life]

/-- Another operation than `finish` resumes. -/
theorem Reports.of_resumed {s s' : State m} {a : Awaiter} (hf : .finish ∉ s.awaited)
    (hret : Call.returned s = []) (hawaited : s'.awaited = s.awaited) (ha : a.op ≠ .finish)
    (hres : s'.resumed = s.resumed ++ [a]) : Reports s' [] := by
  apply Reports.of_unawaited
  · rw [hawaited]
    exact hf
  · rw [returned_concat hres, if_neg ha, hret]
    rfl

theorem Reports.complete_start {s : State m} {a : Awaiter} {done : List (Bool × Status)}
    (h : Reports s done) (hsus : Suspended s a ⟨.awaiter, 0, .start⟩) (ha : a.op = .start)
    (hawaited : s.awaited = [.start]) (ok : Bool) (status : Status) :
    Reports (complete s ⟨.awaiter, 0, .start⟩ ok status) done := by
  have hf : .finish ∉ s.awaited := by simp [hawaited]
  obtain ⟨rfl, hret⟩ := h.unawaited hf
  rw [complete_awaiter hsus.awaiting hsus.pending]
  cases ok with
  | true =>
    simp only [awaiterHandleEvent, ha, if_true]
    exact .of_resumed hf hret rfl (by simp) rfl
  | false =>
    simp only [awaiterHandleEvent, ha, Bool.false_eq_true, if_false]
    rw [resetStream_of_idle (by rfl)]
    exact .of_resumed hf hret rfl (by simp) rfl

theorem Reports.complete_operation {s : State m} {a : Awaiter} {done : List (Bool × Status)}
    (h : Reports s done) (hsus : Suspended s a ⟨.awaiter, 0, a.op⟩) (hfin : .finish ∉ s.awaited)
    (hs : a.op ≠ .start) (hf : a.op ≠ .finish) (ok : Bool) (status : Status) :
    Reports (complete s ⟨.awaiter, 0, a.op⟩ ok status) done := by
  obtain ⟨rfl, hret⟩ := h.unawaited hfin
  rw [complete_awaiter hsus.awaiting hsus.pending,
    awaiterHandleEvent_operation _ (by exact hs) (by exact hf)]
  exact .of_resumed hfin hret rfl (by exact hf) rfl

/-- The half-close of `finish` resumes nothing, whatever its outcome. -/
theorem Reports.complete_closing {s : State m} {a : Awaiter} {done : List (Bool × Status)}
    (h : Reports s done) (hsus : Suspended s a ⟨.awaiter, 0, .writesDone⟩) (ha : a.op = .finish)
    (ok : Bool) (status : Status) :
    Reports (complete s ⟨.awaiter, 0, .writesDone⟩ ok status) done := by
  obtain rfl := h.waiting (.inr (by simp [hsus.awaiting]))
  obtain ⟨b, -, heq⟩ := complete_closing_eq hsus ha ok status
  rw [heq]
  apply Reports.of_suspended (a := b)
  · simp
  · simpa using hsus.life
  · rw [returned_congr (s := s) (by simp)]
    exact h.returned

/-- The abandoned state resumes nothing. -/
theorem Reports.complete_state {s : State m} {evt : Nat} {op : Op} {done : List (Bool × Status)}
    (h : Reports s done) (hlife : s.life = .detached) (hp : s.pending = [⟨.state, evt, op⟩])
    (ok : Bool) (status : Status) : Reports (complete s ⟨.state, evt, op⟩ ok status) done := by
  have hf : .finish ∉ s.awaited := fun hf => h.kept hf hlife
  obtain ⟨rfl, hret⟩ := h.unawaited hf
  rw [Call.complete_state hp]
  cases evt with
  | zero =>
    apply Reports.of_unawaited
    · simpa [stateHandleEvent] using hf
    · rw [returned_congr (s := s) (by simp [stateHandleEvent])]
      exact hret
  | succ k =>
    rw [stateHandleEvent, resetStream_of_idle (by rfl)]
    · exact .of_unawaited hf hret
    · simp

/-- A step that hands `finish` no completion of Finish. -/
theorem Reports.of_none {s : State m} {done : List (Bool × Status)} {a : Action}
    (hnone : finishCompletion a = none) (h : Reports s done) :
    Reports s (done ++ (finishCompletion a).toList) := by
  simpa [hnone] using h

theorem Reports.complete {s : State m} {w : Wire Op} {done : List (Bool × Status)}
    (h : Reports s done) (hsit : Situation s w) {tag : Tag} (hmem : tag ∈ s.pending) (ok : Bool)
    (status : Status) : Reports (complete s tag ok status)
      (done ++ (finishCompletion (.complete tag ok status)).toList) := by
  cases hsit with
  | idle hrest => simp [hrest.pending] at hmem
  | starting a hsus ha _ _ _ hawaited =>
    obtain rfl : tag = _ := by simpa [hsus.pending] using hmem
    exact .of_none rfl (h.complete_start hsus ha hawaited ok status)
  | failed hrest => simp [hrest.pending] at hmem
  | ready c hrest => simp [hrest.pending] at hmem
  | operating a c hsus hact howes _ _ hs hf _ =>
    obtain rfl : tag = _ := by simpa [hsus.pending] using hmem
    exact .of_none (finishCompletion_of_ne hf ok status)
      (h.complete_operation hsus howes.finish hs hf ok status)
  | closing a hsus ha =>
    obtain rfl : tag = _ := by simpa [hsus.pending] using hmem
    exact .of_none rfl (h.complete_closing hsus ha ok status)
  | finishing a hsus ha hact hfin =>
    obtain rfl : tag = _ := by simpa [hsus.pending] using hmem
    exact h.complete_finish hsus ha hfin ok status
  | abandonedClosing hlife _ hp =>
    obtain rfl : tag = _ := by simpa [hp] using hmem
    exact .of_none rfl (h.complete_state hlife hp ok status)
  | abandonedFinishing hlife _ hp =>
    obtain rfl : tag = _ := by simpa [hp] using hmem
    exact .of_none rfl (h.complete_state hlife hp ok status)
  | finished c hrest => simp [hrest.pending] at hmem

theorem Reports.step {s s' : State m} {w : Wire Op} {a : Action} {done : List (Bool × Status)}
    (h : Reports s done) (hsit : Situation s w) (henv : Disciplined s a)
    (hs : step s a = some s') : Reports s' (done ++ (finishCompletion a).toList) := by
  obtain ⟨⟨-, he⟩, rfl⟩ := stepOf_eq_some.mp hs
  cases a with
  | start nullCq =>
    have hf : .finish ∉ s.awaited := by
      rcases hsit.started with hnil | hmem
      · simp [hnil]
      · exact absurd hmem henv
    obtain ⟨rfl, -⟩ := h.unawaited hf
    exact .of_unawaited (by simp [next, start, awaitSuspend]) rfl
  | await op => exact .of_none rfl (h.await he.1 henv.2.1 he.2.2.1)
  | store => exact .of_none rfl h.store.1
  | storeStale => exact .of_none rfl h.store.2
  | complete tag ok status => exact h.complete hsit he ok status
  | destroy => exact .of_none rfl (h.destruct hsit he.1 he.2)

/-- The contract followed so far, and what `finish` has returned. -/
def FinishInv (s : State m) (done : List (Bool × Status)) : Prop :=
  TracksInv s ∧ Reports s done

theorem finishInv_run {s : State m} {as : List Action}
    (henv : Guarded step Disciplined (.init : State m) as)
    (hr : run step .init as = some s) : FinishInv s (finishCompletions as) := by
  rw [finishCompletions, ← labels_of_run hr]
  apply inv_of_labels (I := FinishInv) _ _ henv hr
  · exact ⟨tracksInv_init, reports_init⟩
  · intro s done a s' h hd hs
    obtain ⟨htracks, hrep⟩ := h
    obtain ⟨w, hw⟩ := htracks.1
    exact ⟨tracksInv_step htracks hd hs, hrep.step hw.situation hd hs⟩

theorem Tracks.finishing {s : State m} {w : Wire Op} {done : List (Bool × Status)}
    (h : Tracks s w) (hrep : Reports s done) (hs : s.startResult = some true)
    (hfin : .finish ∈ s.awaited) : Finishing s done := by
  have hissued := (accounts_run h.log).finishes
  cases h.situation with
  | idle _ _ hnone => simp [hs] at hnone
  | starting _ _ _ _ hnone => simp [hs] at hnone
  | failed _ _ hfalse => simp [hs] at hfalse
  | ready _ _ _ _ howes => exact absurd hfin howes.finish
  | operating _ _ _ _ howes => exact absurd hfin howes.finish
  | closing a hsus ha =>
    obtain rfl := hrep.waiting (.inr (by simp [hsus.awaiting]))
    exact .halfClosing a hsus ha hissued hrep.returned
  | finishing a hsus ha =>
    obtain rfl := hrep.waiting (.inr (by simp [hsus.awaiting]))
    exact .finishing a hsus ha hissued hrep.returned
  | abandonedClosing hlife => exact absurd hlife (hrep.kept hfin)
  | abandonedFinishing hlife => exact absurd hlife (hrep.kept hfin)
  | finished _ hrest =>
    obtain ⟨completion, rfl⟩ := hrep.once hfin hrest.awaiting
    exact .finished completion hrest.awaiting hrest.pending hissued hrep.returned

/-- The ways to end the writes of a call. -/
inductive HalfClose where
  | writesDone
  | writeLast
  | finish
  deriving DecidableEq

/-- `co_await` of an operation, and its completion. -/
def round (op : Op) (ok : Bool) : List Action :=
  [.await op, .complete ⟨.awaiter, 0, op⟩ ok {}]

/-- The half-close fails or not; `completion` is that of Finish. -/
def closing (okClose : Bool) (completion : Bool × Status) : HalfClose → List Action
  | .writesDone => round .writesDone okClose ++
      [.await .finish, .complete ⟨.awaiter, 1, .finish⟩ completion.1 completion.2]
  | .writeLast => round .writeLast okClose ++
      [.await .finish, .complete ⟨.awaiter, 1, .finish⟩ completion.1 completion.2]
  | .finish => [.await .finish, .complete ⟨.awaiter, 0, .writesDone⟩ okClose {},
      .complete ⟨.awaiter, 1, .finish⟩ completion.1 completion.2]

/-- The schedule is a run between the states that uses the call as intended. -/
structure Leads (s : State m) (as : List Action) (s' : State m) : Prop where
  run : run step s as = some s'
  guarded : Guarded step Disciplined s as

theorem Leads.append {s s' s'' : State m} {as bs : List Action} (h : Leads s as s')
    (h' : Leads s' bs s'') : Leads s (as ++ bs) s'' where
  run := by
    rw [run_append, h.run]
    exact h'.run
  guarded := by
    apply h.guarded.append
    intro t ht
    obtain rfl : s' = t := by simpa [h.run] using ht
    exact h'.guarded

theorem Leads.single {s : State m} {a : Action} (he : Enabled s a) (hd : Disciplined s a) :
    Leads s [a] (next s a) where
  run := run_single he
  guarded _ _ := ⟨hd, trivial⟩

/-- Between two operations of a started call. -/
structure Ready (s : State m) : Prop where
  fault : s.fault = none
  life : s.life = .owned
  awaiting : s.awaiting = none
  pending : s.pending = []
  stream : s.stream = true
  startResult : s.startResult = some true
  finish : .finish ∉ s.awaited

/-- Suspended in an operation of a started call. -/
structure Busy (s : State m) (a : Awaiter) (tag : Tag) : Prop extends Suspended s a tag where
  fault : s.fault = none
  stream : s.stream = true
  startResult : s.startResult = some true

theorem Ready.issue {s : State m} (h : Ready s) {op op' : Op} {evt : Nat} (hs : op ≠ .start)
    (hoff : op.offered m)
    (hopen : op.checked → .writeLast ∉ s.awaited ∧ .writesDone ∉ s.awaited)
    (heq : await s op = issue { s with
      awaiting := some { op := op }, awaited := s.awaited ++ [op] } op' .awaiter evt) :
    ∃ u, Leads s [.await op] u ∧ Busy u { op := op } ⟨.awaiter, evt, op'⟩ ∧
      u.awaited = s.awaited ++ [op] ∧ u.needWritesDone = s.needWritesDone := by
  rw [issue_of_stream (by exact h.stream)] at heq
  have hissue := Leads.single (s := s) (a := .await op) ⟨h.fault, hs, hoff, h.life, h.awaiting⟩
    ⟨h.startResult, h.finish, hopen⟩
  rw [next, heq] at hissue
  refine ⟨_, hissue, ⟨⟨h.life, rfl, ?_⟩, h.fault, h.stream, h.startResult⟩, rfl, rfl⟩
  simp [h.pending]

theorem Busy.complete {s : State m} {a : Awaiter} {tag : Tag} (h : Busy s a tag)
    (hs : tag.op ≠ .start) (ok : Bool) (status : Status) :
    Leads s [.complete tag ok status] (complete s tag ok status) :=
  Leads.single ⟨h.fault, by simp [h.pending]⟩ fun hop => absurd hop hs

theorem Ready.round {s : State m} (h : Ready s) {op : Op} (hs : op ≠ .start) (hf : op ≠ .finish)
    (hoff : op.offered m)
    (hopen : op.checked → .writeLast ∉ s.awaited ∧ .writesDone ∉ s.awaited) (ok : Bool) :
    ∃ s', Leads s (round op ok) s' ∧ Ready s' ∧ s'.awaited = s.awaited ++ [op] ∧
      s'.needWritesDone = if op.role = .halfClose then false else s.needWritesDone := by
  obtain ⟨u, hu, hbusy, hawaited, hneed⟩ :=
    h.issue hs hoff hopen (await_eq_issue h.stream hs hf)
  have hdone := hbusy.complete (by exact hs) ok {}
  rw [complete_awaiter hbusy.awaiting hbusy.pending,
    awaiterHandleEvent_operation _ (by exact hs) (by exact hf)] at hdone
  refine ⟨_, hu.append hdone, ?_, hawaited, ?_⟩
  · refine ⟨hbusy.fault, hbusy.life, rfl, rfl, hbusy.stream, hbusy.startResult, ?_⟩
    simp [resume, hawaited, h.finish, Ne.symm hf]
  · rw [← hneed]
    rfl

/-- The operations a session may await before it is closed. -/
def Prior (m : RpcMethodType) (prior : List (Op × Bool)) : Prop :=
  ∀ p ∈ prior, (p.1 = .read ∨ p.1 = .write) ∧ p.1.offered m

instance (m : RpcMethodType) (prior : List (Op × Bool)) : Decidable (Prior m prior) :=
  inferInstanceAs (Decidable (∀ p ∈ prior, (p.1 = .read ∨ p.1 = .write) ∧ p.1.offered m))

theorem Ready.rounds {s : State m} (h : Ready s)
    (hopen : .writeLast ∉ s.awaited ∧ .writesDone ∉ s.awaited) {prior : List (Op × Bool)}
    (hops : Prior m prior) :
    ∃ s', Leads s (prior.flatMap fun p => Call.round p.1 p.2) s' ∧ Ready s' ∧
      (.writeLast ∉ s'.awaited ∧ .writesDone ∉ s'.awaited) ∧
      s'.needWritesDone = s.needWritesDone := by
  induction prior generalizing s with
  | nil => exact ⟨s, ⟨rfl, trivial⟩, h, hopen, rfl⟩
  | cons p prior ih =>
    obtain ⟨hrw, hoff⟩ := hops p List.mem_cons_self
    have hother : p.1 ≠ .start ∧ p.1 ≠ .finish ∧ p.1 ≠ .writeLast ∧ p.1 ≠ .writesDone ∧
        p.1.role ≠ .halfClose := by
      rcases hrw with heq | heq <;> simp [heq, Op.role]
    obtain ⟨hs, hf, hl, hd, hrole⟩ := hother
    obtain ⟨u, hu, hready, hawaited, hneed⟩ := h.round hs hf hoff (fun _ => hopen) p.2
    obtain ⟨v, hv, hready', hopen', hneed'⟩ := ih hready
      (by simp [hawaited, hopen, Ne.symm hl, Ne.symm hd])
      fun q hq => hops q (List.mem_cons_of_mem _ hq)
    refine ⟨v, hu.append hv, hready', hopen', ?_⟩
    rw [hneed', hneed, if_neg hrole]

/-- The first phase of `finish`. -/
theorem Busy.closing {s : State m} {a : Awaiter} (h : Busy s a ⟨.awaiter, 0, .writesDone⟩)
    (ha : a.op = .finish) (okClose : Bool) : ∃ b s',
      Leads s [.complete ⟨.awaiter, 0, .writesDone⟩ okClose {}] s' ∧
      Busy s' b ⟨.awaiter, 1, .finish⟩ ∧ b.op = .finish ∧ s'.awaited = s.awaited := by
  have hdone := h.complete (by simp) okClose {}
  obtain ⟨b, hb, heq⟩ := complete_closing_eq h.toSuspended ha okClose {}
  rw [heq, issue_of_stream (by exact h.stream)] at hdone
  exact ⟨b, _, hdone, ⟨⟨h.life, rfl, rfl⟩, h.fault, h.stream, h.startResult⟩, hb, rfl⟩

/-- The second phase of `finish`. -/
theorem Busy.finish {s : State m} {a : Awaiter} (h : Busy s a ⟨.awaiter, 1, .finish⟩)
    (ha : a.op = .finish) (completion : Bool × Status) : ∃ s', Leads s
        [.complete ⟨.awaiter, 1, .finish⟩ completion.1 completion.2] s' ∧
      s'.startResult = some true ∧ s'.awaited = s.awaited := by
  have hdone := h.complete (by simp) completion.1 completion.2
  obtain ⟨b, -, -, heq⟩ := complete_finish_eq h.toSuspended ha completion.1 completion.2
  rw [heq] at hdone
  exact ⟨_, hdone, h.startResult, rfl⟩

/-- `finish` after an explicit half-close. -/
theorem Ready.finish_closed {s : State m} (h : Ready s) (hneed : s.needWritesDone = false)
    (completion : Bool × Status) : ∃ s', Leads s [.await .finish,
        .complete ⟨.awaiter, 1, .finish⟩ completion.1 completion.2] s' ∧
      s'.startResult = some true ∧ .finish ∈ s'.awaited := by
  have hawait : Call.await s .finish = Call.issue { s with
      awaiting := some { op := .finish }, awaited := s.awaited ++ [.finish] }
      .finish .awaiter 1 := by
    simp [Call.await, awaitSuspend, issueLast, hneed, Op.checked]
  obtain ⟨u, hu, hbusy, hawaited, -⟩ := h.issue (by simp) rfl (by simp [Op.checked]) hawait
  obtain ⟨v, hv, hres, hkept⟩ := hbusy.finish rfl completion
  exact ⟨v, hu.append hv, hres, by simp [hkept, hawaited]⟩

/-- `finish` that half-closes first. -/
theorem Ready.finish_open {s : State m} (h : Ready s) (hw : m.isClientStreaming = true)
    (hneed : s.needWritesDone = true) (okClose : Bool) (completion : Bool × Status) :
    ∃ s', Leads s (Call.closing okClose completion .finish) s' ∧
      s'.startResult = some true ∧ .finish ∈ s'.awaited := by
  have hawait : Call.await s .finish = Call.issue { s with
      awaiting := some { op := .finish }, awaited := s.awaited ++ [.finish] }
      .writesDone .awaiter 0 := by
    simp [Call.await, awaitSuspend, issueLast, hw, hneed, Op.checked]
  obtain ⟨u, hu, hbusy, hawaited, -⟩ := h.issue (by simp) rfl (by simp [Op.checked]) hawait
  obtain ⟨b, v, hv, hbusy', hb, hkept⟩ := hbusy.closing rfl okClose
  obtain ⟨t, ht, hres, hkept'⟩ := hbusy'.finish hb completion
  exact ⟨t, hu.append (hv.append ht), hres, by simp [hkept', hkept, hawaited]⟩

theorem Ready.closing {s : State m} (h : Ready s) (hw : m.isClientStreaming = true)
    (hopen : .writeLast ∉ s.awaited ∧ .writesDone ∉ s.awaited) (hneed : s.needWritesDone = true)
    (c : HalfClose) (okClose : Bool) (completion : Bool × Status) :
    ∃ s', Leads s (Call.closing okClose completion c) s' ∧
      s'.startResult = some true ∧ .finish ∈ s'.awaited := by
  cases c with
  | writesDone =>
    obtain ⟨u, hu, hready, -, hneed'⟩ :=
      h.round (show Op.writesDone ≠ .start by simp) (by simp) hw (fun _ => hopen) okClose
    obtain ⟨v, hv, hend⟩ := hready.finish_closed hneed' completion
    exact ⟨v, hu.append hv, hend⟩
  | writeLast =>
    obtain ⟨u, hu, hready, -, hneed'⟩ :=
      h.round (show Op.writeLast ≠ .start by simp) (by simp) hw (fun _ => hopen) okClose
    obtain ⟨v, hv, hend⟩ := hready.finish_closed hneed' completion
    exact ⟨v, hu.append hv, hend⟩
  | finish => exact h.finish_open hw hneed okClose completion

/-- A call whose `start` returns true. -/
def opening : List Action := [.start true, .store, .complete ⟨.awaiter, 0, .start⟩ true {}]

theorem opening_leads (hw : m.isClientStreaming = true) : ∃ s : State m,
    Leads .init opening s ∧ Ready s ∧ s.awaited = [.start] ∧ s.needWritesDone = true := by
  have hrun : run step (.init : State m) opening = some _ := rfl
  have hg : Guarded step Disciplined (.init : State m) opening := by
    cases m <;> decide
  refine ⟨_, ⟨hrun, hg⟩, ⟨rfl, rfl, rfl, rfl, rfl, rfl, ?_⟩, rfl, ?_⟩
  · show Op.finish ∉ [Op.start]
    simp
  · exact if_pos hw

/-- A call that is started, reads and writes, and is closed. -/
def session (prior : List (Op × Bool)) (c : HalfClose) (okClose : Bool)
    (completion : Bool × Status) : List Action :=
  opening ++ prior.flatMap (fun p => round p.1 p.2) ++ closing okClose completion c

theorem session_leads (hw : m.isClientStreaming = true) {prior : List (Op × Bool)}
    (hops : Prior m prior) (c : HalfClose) (okClose : Bool) (completion : Bool × Status) :
    ∃ s : State m, Leads .init (session prior c okClose completion) s ∧
      s.startResult = some true ∧ .finish ∈ s.awaited := by
  obtain ⟨s, hs, hready, hawaited, hneed⟩ := opening_leads hw
  obtain ⟨u, hu, hready', hopen, hneed'⟩ := hready.rounds (by simp [hawaited]) hops
  obtain ⟨v, hv, hend⟩ := hready'.closing hw hopen (hneed'.trans hneed) c okClose completion
  exact ⟨v, (hs.append hu).append hv, hend⟩

theorem finishCompletions_session {prior : List (Op × Bool)} (hops : Prior m prior)
    (c : HalfClose) (okClose : Bool) (completion : Bool × Status) :
    finishCompletions (session prior c okClose completion) = [completion] := by
  have hprior : finishCompletions (prior.flatMap fun p => round p.1 p.2) = [] := by
    rw [finishCompletions, List.filterMap_eq_nil_iff]
    intro a ha
    obtain ⟨p, hp, ha⟩ := List.mem_flatMap.mp ha
    have hf : p.1 ≠ .finish := by
      rcases (hops p hp).1 with heq | heq <;> simp [heq]
    have hround : a = .await p.1 ∨ a = .complete ⟨.awaiter, 0, p.1⟩ p.2 {} := by
      simpa [round] using ha
    rcases hround with rfl | rfl
    · rfl
    · exact finishCompletion_of_ne hf _ _
  have hclosing : finishCompletions (closing okClose completion c) = [completion] := by
    cases c <;> rfl
  rw [finishCompletions] at hprior hclosing ⊢
  rw [session, List.filterMap_append, List.filterMap_append, hprior, hclosing]
  rfl

/-- `finish` of a started call. In every run that uses the call as intended it half-closes
first if that is still owed, issues one Finish and resumes the coroutine once, with the
completion of Finish: then it returns the status stored for the RPC, or that the completion
failed. Closed in any of the three ways, after any reads and writes and whatever became of
them and of the half-close, the call comes to that end. -/
theorem finish_reports (hw : m.isClientStreaming = true) :
    (∀ (as : List Action) (s : State m), Guarded step Disciplined (.init : State m) as →
      run step .init as = some s → s.startResult = some true → .finish ∈ s.awaited →
      Finishing s (finishCompletions as)) ∧
    (∀ (prior : List (Op × Bool)) (c : HalfClose) (okClose : Bool) (completion : Bool × Status),
      Prior m prior → ∃ s : State m,
        run step .init (session prior c okClose completion) = some s ∧
        Guarded step Disciplined (.init : State m) (session prior c okClose completion) ∧
        issued Op.role .finish s.log = 1 ∧ returned s = [finishStatus completion]) := by
  have hevery : ∀ (as : List Action) (s : State m), Guarded step Disciplined (.init : State m) as →
      run step .init as = some s → s.startResult = some true → .finish ∈ s.awaited →
      Finishing s (finishCompletions as) := by
    intro as s henv hr hs hfin
    obtain ⟨⟨⟨w, hw⟩, -⟩, hrep⟩ := finishInv_run henv hr
    exact hw.finishing hrep hs hfin
  refine ⟨hevery, fun prior c okClose completion hops => ?_⟩
  obtain ⟨s, hlead, hs, hfin⟩ := session_leads hw hops c okClose completion
  have hend := hevery _ s hlead.guarded hlead.run hs hfin
  rw [finishCompletions_session hops] at hend
  cases hend with
  | finished _ _ _ hissued hret => exact ⟨s, hlead.run, hlead.guarded, hissued, hret⟩

/-- Two writes fail, and so does the half-close of `finish`. -/
def brokenWrites : List (Op × Bool) := [(.write, true), (.write, false), (.write, false)]

/-- While the half-close is in flight nothing is returned; in the end the RPC's own status
is. -/
theorem brokenWrites_finish :
    (∃ s : State .bidiStreaming,
      run step .init (opening ++ [.await .finish]) = some s ∧ returned s = []) ∧
    ∃ s : State .bidiStreaming,
      run step .init (session brokenWrites .finish false
          (true, { code := .unavailable, message := "gone" })) = some s ∧
        returned s = [{ code := .unavailable, message := "gone" }] := by
  have hreports := finish_reports (m := .bidiStreaming) rfl
  refine ⟨?_, ?_⟩
  · have hg : Guarded step Disciplined (.init : State .bidiStreaming)
        (opening ++ [.await .finish]) := by decide
    have hr : run step (.init : State .bidiStreaming) (opening ++ [.await .finish]) = some _ := rfl
    cases hreports.1 _ _ hg hr rfl (by decide) with
    | halfClosing a _ _ _ hret => exact ⟨_, hr, hret⟩
    | finishing a hsus => exact ⟨_, hr, rfl⟩
  · obtain ⟨s, hr, -, -, hret⟩ := hreports.2 brokenWrites .finish false
      (true, { code := .unavailable, message := "gone" }) (by decide)
    exact ⟨s, hr, hret⟩

end AsyncppGrpc.Call
