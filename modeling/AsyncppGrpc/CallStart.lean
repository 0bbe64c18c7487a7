import AsyncppGrpc.Call

/-! `start` against its own completion: the stream the stub method returns is stored after
the operation is in flight, so the handler and the coroutine it resumes may come first. -/
namespace AsyncppGrpc.Call
open Run
variable {m : RpcMethodType}

/-- The completion of `start` is handled after its stream is stored. -/
def StoredFirst (s : State m) : Action → Prop
  | .complete tag _ _ => tag.op = .start → s.storing = false
  | _ => True

instance (s : State m) (a : Action) : Decidable (StoredFirst s a) :=
  match a with
  | .complete tag _ _ => inferInstanceAs (Decidable (tag.op = .start → s.storing = false))
  | .start _ | .await _ | .store | .storeStale | .destroy => instDecidableTrue

/-- A `start` that returned true has its stream until `finish` has returned or the call is
destroyed, one that returned false has none, and once the coroutine is resumed
`await_suspend` has nothing left to do. -/
structure StartAgrees (s : State m) : Prop where
  active : s.startResult = some true → s.life = .owned → (∀ a ∈ s.resumed, a.op ≠ .finish) →
    s.stream = true
  failed : s.startResult = some false → s.stream = false
  idle : s.startResult ≠ none → s.storing = false
  late : s.stale = 0

/-- What is in flight belongs to the awaiter the coroutine is suspended in, or to the
abandoned state. -/
structure InFlight (s : State m) : Prop where
  suspended : ∀ a, s.awaiting = some a → s.life = .owned ∧
    ∃ evt op, s.pending = [⟨.awaiter, evt, op⟩] ∧ (op = .start ↔ a.op = .start)
  running : s.awaiting = none → s.life = .owned → s.pending = []
  abandoned : s.life ≠ .owned → s.awaiting = none ∧
    ∀ tag ∈ s.pending, ∃ evt op, op ≠ .start ∧ tag = ⟨.state, evt, op⟩ ∧ s.pending = [tag]
  starting : ∀ a, s.awaiting = some a → a.op = .start →
    s.startResult = none ∧ (s.storing = true ∨ s.stream = true)

/-- A `start` that has its stream to store and has not resumed is being awaited. -/
def Fresh (s : State m) : Prop :=
  s.startResult = none → s.storing = true → ∃ a, s.awaiting = some a ∧ a.op = .start

/-- Once the process has failed nothing more happens. -/
def StartInv (s : State m) : Prop := s.fault = none → InFlight s ∧ Fresh s

theorem inFlight_init : InFlight (.init : State m) := by
  constructor <;> simp [State.init]

theorem startInv_init : StartInv (.init : State m) := by
  refine fun _ => ⟨inFlight_init, ?_⟩
  simp [Fresh, State.init]

/-- A completion is handled by the awaiter the coroutine is suspended in, or by the abandoned
state; either finds nothing else in flight. -/
theorem InFlight.complete_cases {s : State m} (h : InFlight s) {tag : Tag} (hmem : tag ∈ s.pending)
    (ok : Bool) (status : Status) :
    (∃ a evt op, s.life = .owned ∧ s.awaiting = some a ∧ tag = ⟨.awaiter, evt, op⟩ ∧
      (op = .start ↔ a.op = .start) ∧ complete s tag ok status =
        awaiterHandleEvent { s with pending := [], log := s.log ++ [.done op ok] }
          { a with status := if op = .finish then status else a.status } evt ok) ∨
    (∃ evt op, s.life ≠ .owned ∧ s.awaiting = none ∧ tag = ⟨.state, evt, op⟩ ∧ op ≠ .start ∧
      complete s tag ok status = stateHandleEvent { s with
        pending := []
        log := s.log ++ [.done op ok]
        exitStatus := if op = .finish then status else s.exitStatus } evt) := by
  by_cases hlife : s.life = .owned
  · have hsome : s.awaiting ≠ none := by
      intro hnone
      simp [h.running hnone hlife] at hmem
    obtain ⟨a, ha⟩ := Option.ne_none_iff_exists'.mp hsome
    obtain ⟨-, evt, op, hp, hop⟩ := h.suspended a ha
    obtain rfl : tag = ⟨.awaiter, evt, op⟩ := by simpa [hp] using hmem
    exact .inl ⟨a, evt, op, hlife, ha, rfl, hop, complete_awaiter ha hp ok status⟩
  · obtain ⟨hawaiting, hall⟩ := h.abandoned hlife
    obtain ⟨evt, op, hop, rfl, hp⟩ := hall tag hmem
    exact .inr ⟨evt, op, hlife, hawaiting, rfl, hop, complete_state hp ok status⟩

theorem InFlight.issue {s : State m} {a : Awaiter} (hlife : s.life = .owned)
    (ha : s.awaiting = some a) (hp : s.pending = []) (hs : a.op ≠ .start) {op : Op}
    (hop : op ≠ .start) {evt : Nat} (hfault : (issue s op .awaiter evt).fault = none) :
    InFlight (issue s op .awaiter evt) where
  suspended b hb := by
    obtain rfl : a = b := by simpa [ha] using hb
    refine ⟨by simpa using hlife, evt, op, ?_, by simp [hop, hs]⟩
    rw [issue_pending hfault, hp]
    rfl
  running hn := by simp [ha] at hn
  abandoned hl := by simp [hlife] at hl
  starting b hb hbs := by
    obtain rfl : a = b := by simpa [ha] using hb
    exact absurd hbs hs

theorem InFlight.await {s : State m} (h : InFlight s) {op : Op} (hs : op ≠ .start)
    (hlife : s.life = .owned) (hawaiting : s.awaiting = none)
    (hfault : (await s op).fault = none) : InFlight (await s op) := by
  rcases await_eq s hs with heq | ⟨op', evt, hop, heq⟩
  · rw [heq]
    exact ⟨h.suspended, h.running, h.abandoned, h.starting⟩
  · rw [heq] at hfault ⊢
    refine .issue (a := { op := op }) ?_ rfl ?_ hs hop hfault
    · exact hlife
    · exact h.running hawaiting hlife

theorem InFlight.start {s : State m} (h : InFlight s) (hlife : s.life = .owned)
    (hawaiting : s.awaiting = none) (nullCq : Bool) : InFlight (start s nullCq) where
  suspended a ha := by
    obtain rfl : { op := .start } = a := by simpa [Call.start, awaitSuspend] using ha
    refine ⟨hlife, 0, .start, ?_, by simp⟩
    simp [Call.start, awaitSuspend, h.running hawaiting hlife]
  running hn := by simp [Call.start, awaitSuspend] at hn
  abandoned hl := absurd hlife hl
  starting a _ _ := ⟨rfl, .inl rfl⟩

theorem InFlight.assign {s : State m} (h : InFlight s) :
    InFlight ({ s with stream := true } : State m) :=
  ⟨h.suspended, h.running, h.abandoned, fun a ha hs => ⟨(h.starting a ha hs).1, .inr rfl⟩⟩

theorem InFlight.store {s : State m} (h : InFlight s) (hfault : (store s).fault = none) :
    InFlight (store s) := by
  rw [Call.store, assign_eq (by exact hfault)]
  have hi := h.assign
  exact ⟨hi.suspended, hi.running, hi.abandoned, fun a ha hs => ⟨(hi.starting a ha hs).1, .inr rfl⟩⟩

theorem InFlight.storeStale {s : State m} (h : InFlight s) (hfault : (storeStale s).fault = none) :
    InFlight (storeStale s) := by
  rw [Call.storeStale, assign_eq (by exact hfault)]
  have hi := h.assign
  exact ⟨hi.suspended, hi.running, hi.abandoned, hi.starting⟩

theorem InFlight.destruct {s : State m} (h : InFlight s) (hlife : s.life = .owned)
    (hawaiting : s.awaiting = none) (hfault : (destruct s).fault = none) :
    InFlight (destruct s) := by
  have hp := h.running hawaiting hlife
  by_cases hstream : s.stream
  · obtain ⟨op, evt, hop, heq⟩ := issueLast_eq { s with cancelled := true, life := .detached }
      .state
    have hd : Call.destruct s = Call.issue { s with cancelled := true, life := .detached } op
        .state evt := by
      rw [Call.destruct, if_pos hstream, heq]
    rw [hd] at hfault ⊢
    constructor
    · simp [hawaiting]
    · simp
    · intro _
      rw [issue_pending hfault]
      simpa [hawaiting, hp] using hop
    · simp [hawaiting]
  · rw [Call.destruct, if_neg hstream]
    constructor <;> simp [deleteThis, hawaiting, hp]

theorem Fresh.frame {s s' : State m} (h : Fresh s) (hres : s'.startResult = s.startResult)
    (hstoring : s'.storing = s.storing)
    (hawaiting : ∀ a, s.awaiting = some a → a.op = .start → s'.awaiting = some a) : Fresh s' := by
  intro hnone htrue
  obtain ⟨a, ha, hs⟩ := h (hres ▸ hnone) (hstoring ▸ htrue)
  exact ⟨a, hawaiting a ha hs, hs⟩

/-- Every step but the store and the completion of `start` leaves its result alone and takes
the stream only from a call that is finished or destroyed. -/
theorem StartAgrees.frame {s s' : State m} (h : StartAgrees s)
    (hres : s'.startResult = s.startResult) (hstoring : s'.storing = s.storing)
    (hstale : s'.stale = s.stale)
    (hlost : s'.stream = true → s.stream = true)
    (hkeep : s'.life = .owned → (∀ a ∈ s'.resumed, a.op ≠ .finish) →
      s.life = .owned ∧ (∀ a ∈ s.resumed, a.op ≠ .finish) ∧ s'.stream = s.stream) :
    StartAgrees s' where
  active ht hlife hfin := by
    obtain ⟨hl, hf, hs⟩ := hkeep hlife hfin
    rw [hs]
    exact h.active (hres ▸ ht) hl hf
  failed hf := by
    by_contra hs
    have hnone := h.failed (hres ▸ hf)
    simp [hlost (by simpa using hs)] at hnone
  idle hn := by
    rw [hstoring]
    exact h.idle (hres ▸ hn)
  late := hstale.trans h.late

theorem StartAgrees.issue {s : State m} (h : StartAgrees s) (op : Op) (receiver : Receiver)
    (evt : Nat) : StartAgrees (issue s op receiver evt) := by
  refine h.frame (by simp) (by simp) (by simp) (by simp) fun hl hf => ⟨?_, ?_, by simp⟩
  · simpa using hl
  · simpa using hf

/-- When `start` is awaited again the previous one has stored its stream. -/
theorem StartAgrees.start {s : State m} (h : StartAgrees s) (hfresh : Fresh s)
    (hawaiting : s.awaiting = none) (nullCq : Bool) : StartAgrees (start s nullCq) := by
  have hstoring : s.storing = false := by
    by_cases hnone : s.startResult = none
    · by_contra htrue
      obtain ⟨a, ha, -⟩ := hfresh hnone (by simpa using htrue)
      simp [hawaiting] at ha
    · exact h.idle hnone
  constructor <;> simp [Call.start, awaitSuspend, hstoring, h.late]

theorem StartAgrees.await {s : State m} (h : StartAgrees s) {op : Op} (hs : op ≠ .start) :
    StartAgrees (await s op) := by
  rcases await_eq s hs with heq | ⟨op', evt, -, heq⟩
  · rw [heq]
    exact ⟨h.active, h.failed, h.idle, h.late⟩
  · rw [heq]
    refine .issue ?_ _ _ _
    exact ⟨h.active, h.failed, h.idle, h.late⟩

/-- While the stream is to be stored `start` has not resumed. -/
theorem StartAgrees.store {s : State m} (h : StartAgrees s) (hstoring : s.storing) :
    StartAgrees (store s) := by
  have hnone : s.startResult = none := by
    by_contra hne
    simp [h.idle hne] at hstoring
  constructor <;> simp [Call.store, hnone, h.late]

theorem StartAgrees.destruct {s : State m} (h : StartAgrees s) : StartAgrees (destruct s) := by
  by_cases hstream : s.stream
  · obtain ⟨op, evt, -, heq⟩ := issueLast_eq { s with cancelled := true, life := .detached }
      .state
    rw [Call.destruct, if_pos hstream, heq]
    refine .issue ?_ _ _ _
    exact ⟨by simp, h.failed, h.idle, h.late⟩
  · rw [Call.destruct, if_neg hstream]
    refine ⟨?_, h.failed, h.idle, h.late⟩
    simp [deleteThis]

/-- The abandoned state's own events neither give the call a stream nor matter to `start`. -/
theorem StartAgrees.stateHandleEvent {s : State m} (h : StartAgrees s) (hp : s.pending = [])
    (evt : Nat) : StartAgrees (stateHandleEvent s evt) := by
  cases evt with
  | zero => exact h.issue _ _ _
  | succ k =>
    rw [Call.stateHandleEvent, resetStream_of_idle hp]
    · refine ⟨?_, fun _ => rfl, h.idle, h.late⟩
      simp [deleteThis]
    · simp

theorem InFlight.stateHandleEvent {s : State m} (hlife : s.life ≠ .owned)
    (hawaiting : s.awaiting = none) (hp : s.pending = []) (evt : Nat)
    (hfault : (stateHandleEvent s evt).fault = none) : InFlight (stateHandleEvent s evt) := by
  cases evt with
  | zero =>
    have hpend : (Call.stateHandleEvent s 0).pending = s.pending ++ [⟨.state, 1, .finish⟩] :=
      issue_pending hfault
    constructor
    · simp [Call.stateHandleEvent, hawaiting]
    · simp [Call.stateHandleEvent, hlife]
    · intro _
      rw [hpend, hp]
      exact ⟨by simpa [Call.stateHandleEvent] using hawaiting, by simp⟩
    · simp [Call.stateHandleEvent, hawaiting]
  | succ k =>
    rw [Call.stateHandleEvent, resetStream_of_idle hp]
    · constructor <;> simp [deleteThis, hawaiting, hp]
    · simp

theorem InFlight.of_running {s : State m} (hlife : s.life = .owned)
    (hawaiting : s.awaiting = none) (hp : s.pending = []) : InFlight s := by
  constructor <;> simp [hlife, hawaiting, hp]

theorem InFlight.awaiterHandleEvent {s : State m} {a : Awaiter} (hlife : s.life = .owned)
    (hp : s.pending = []) (evt : Nat) (ok : Bool)
    (hfault : (awaiterHandleEvent s a evt ok).fault = none) :
    InFlight (awaiterHandleEvent s a evt ok) := by
  by_cases hs : a.op = .start
  · cases ok with
    | true =>
      simp only [Call.awaiterHandleEvent, hs, if_true]
      exact .of_running hlife rfl hp
    | false =>
      simp only [Call.awaiterHandleEvent, hs, Bool.false_eq_true, if_false]
      rw [resetStream_of_idle (by exact hp)]
      exact .of_running hlife rfl hp
  · by_cases hf : a.op = .finish
    · obtain ⟨b, hb, heq⟩ := awaiterHandleEvent_finish s hf evt ok
      rw [heq] at hfault ⊢
      split at hfault
      · rw [if_pos ‹_›]
        refine .issue (a := b) ?_ rfl ?_ ?_ (by simp) hfault
        · exact hlife
        · exact hp
        · simp [hb]
      · rw [if_neg ‹_›, resetStream_of_idle hp]
        exact .of_running hlife rfl hp
    · rw [awaiterHandleEvent_operation s hs hf]
      exact .of_running hlife rfl hp

/-- The completion of an operation other than `start`. -/
theorem StartAgrees.awaiterHandleEvent {s : State m} (h : StartAgrees s) {a : Awaiter}
    (hs : a.op ≠ .start) (hp : s.pending = []) (evt : Nat) (ok : Bool) :
    StartAgrees (awaiterHandleEvent s a evt ok) := by
  by_cases hf : a.op = .finish
  · obtain ⟨b, hb, heq⟩ := awaiterHandleEvent_finish s hf evt ok
    rw [heq]
    split
    · refine .issue ?_ _ _ _
      exact ⟨h.active, h.failed, h.idle, h.late⟩
    · rw [resetStream_of_idle hp]
      refine h.frame rfl rfl rfl (by simp [Call.resume]) fun _ hfin => ?_
      exact absurd hb (hfin b (List.mem_append_right _ (List.mem_singleton.mpr rfl)))
  · rw [awaiterHandleEvent_operation s hs hf]
    refine h.frame rfl rfl rfl id fun hl hfin => ⟨hl, fun c hc => ?_, rfl⟩
    exact hfin c (List.mem_append_left _ hc)

theorem awaiterHandleEvent_startResult (s : State m) {a : Awaiter} (hs : a.op ≠ .start)
    (evt : Nat) (ok : Bool) : (awaiterHandleEvent s a evt ok).startResult = s.startResult := by
  by_cases hf : a.op = .finish
  · obtain ⟨b, -, heq⟩ := awaiterHandleEvent_finish s hf evt ok
    rw [heq]
    split <;> simp [resume]
  · rw [awaiterHandleEvent_operation s hs hf]
    rfl

/-- The completion of `start` agrees with the stream exactly if that is stored. -/
theorem startAgrees_start_iff {s : State m} {a : Awaiter} (ha : a.op = .start)
    (hp : s.pending = []) (hstored : s.storing = true ∨ s.stream = true) (hlate : s.stale = 0)
    (evt : Nat) (ok : Bool) : StartAgrees (awaiterHandleEvent s a evt ok) ↔
      s.storing = false := by
  cases ok <;> simp only [awaiterHandleEvent, ha, if_true, Bool.false_eq_true, if_false]
  · rw [resetStream_of_idle (by exact hp)]
    constructor
    · exact fun h => h.idle (by simp [resume])
    · exact fun hstoring => ⟨by simp [resume], fun _ => rfl, fun _ => hstoring, hlate⟩
  · constructor
    · exact fun h => h.idle (by simp [resume])
    · intro hstoring
      have hstream : s.stream = true := by simpa [hstoring] using hstored
      exact ⟨fun _ _ _ => hstream, by simp [resume], fun _ => hstoring, hlate⟩

/-- One completion: `start` and its stream still agree exactly if it meets the guard. -/
theorem startAgrees_complete_iff {s : State m} (h : StartAgrees s) (hi : InFlight s) {tag : Tag}
    (hmem : tag ∈ s.pending) (ok : Bool) (status : Status) :
    StartAgrees (complete s tag ok status) ↔ StoredFirst s (.complete tag ok status) := by
  rcases hi.complete_cases hmem ok status with
    ⟨a, evt, op, -, ha, rfl, hop, heq⟩ | ⟨evt, op, -, -, rfl, hop, heq⟩
  · rw [heq]
    by_cases hs : a.op = .start
    · rw [startAgrees_start_iff (by exact hs) rfl (by exact (hi.starting a ha hs).2)
        (by exact h.late)]
      simp [StoredFirst, hop.mpr hs]
    · refine iff_of_true ?_ fun h => absurd (hop.mp h) hs
      refine StartAgrees.awaiterHandleEvent ?_ ?_ rfl evt ok
      · exact ⟨h.active, h.failed, h.idle, h.late⟩
      · exact hs
  · rw [heq]
    refine iff_of_true ?_ fun h => absurd h hop
    refine StartAgrees.stateHandleEvent ?_ rfl evt
    exact ⟨h.active, h.failed, h.idle, h.late⟩

theorem InFlight.complete {s : State m} (hi : InFlight s) {tag : Tag} (hmem : tag ∈ s.pending)
    {ok : Bool} {status : Status} (hfault : (complete s tag ok status).fault = none) :
    InFlight (complete s tag ok status) := by
  rcases hi.complete_cases hmem ok status with
    ⟨a, evt, op, hlife, -, -, -, heq⟩ | ⟨evt, op, hlife, hawaiting, -, -, heq⟩
  · rw [heq] at hfault ⊢
    refine .awaiterHandleEvent ?_ rfl evt ok hfault
    exact hlife
  · rw [heq] at hfault ⊢
    refine .stateHandleEvent ?_ ?_ rfl evt hfault
    · exact hlife
    · exact hawaiting

theorem inFlight_step {s s' : State m} {a : Action} (hi : InFlight s) (hs : step s a = some s')
    (hfault : s'.fault = none) : InFlight s' := by
  obtain ⟨⟨-, he⟩, rfl⟩ := stepOf_eq_some.mp hs
  cases a with
  | start nullCq => exact hi.start he.1 he.2 nullCq
  | await op => exact hi.await he.1 he.2.2.1 he.2.2.2 hfault
  | store => exact hi.store hfault
  | storeStale => exact hi.storeStale hfault
  | complete tag ok status => exact hi.complete he hfault
  | destroy => exact hi.destruct he.1 he.2 hfault

theorem Fresh.complete {s : State m} (h : Fresh s) (hi : InFlight s) {tag : Tag}
    (hmem : tag ∈ s.pending) (ok : Bool) (status : Status) : Fresh (complete s tag ok status) := by
  rcases hi.complete_cases hmem ok status with
    ⟨a, evt, op, -, ha, -, -, heq⟩ | ⟨evt, op, -, hawaiting, -, -, heq⟩
  · rw [heq]
    by_cases hs : a.op = .start
    · intro hnone
      cases ok <;> simp [awaiterHandleEvent, hs, resume] at hnone
    · intro hnone hstoring
      rw [awaiterHandleEvent_startResult _ (by exact hs)] at hnone
      obtain ⟨b, hb, hbs⟩ := h hnone (by simpa using hstoring)
      obtain rfl : a = b := by simpa [ha] using hb
      exact absurd hbs hs
  · rw [heq]
    exact h.frame (by simp) (by simp) (by simp [hawaiting])

theorem fresh_step {s s' : State m} {a : Action} (h : Fresh s) (hi : InFlight s)
    (hs : step s a = some s') : Fresh s' := by
  obtain ⟨⟨-, he⟩, rfl⟩ := stepOf_eq_some.mp hs
  cases a with
  | start nullCq => exact fun _ _ => ⟨{ op := .start }, rfl, rfl⟩
  | await op =>
    rcases await_eq s he.1 with heq | ⟨op', evt, -, heq⟩
    · simp only [next, heq]
      exact h
    · simp only [next, heq]
      exact h.frame (by simp) (by simp) (by simp [he.2.2.2])
  | store => exact fun _ hstoring => by simp [next, store] at hstoring
  | storeStale =>
    exact h.frame (by simp [next, storeStale]) (by simp [next, storeStale])
      (by simp +contextual [next, storeStale])
  | complete tag ok status => exact h.complete hi he ok status
  | destroy => exact h.frame (by simp [next]) (by simp [next]) (by simp +contextual [next])

theorem startInv_step {s s' : State m} {a : Action} (h : StartInv s) (hs : step s a = some s') :
    StartInv s' := by
  obtain ⟨hi, hfresh⟩ := h (stepOf_eq_some.mp hs).1.1
  exact fun hfault => ⟨inFlight_step hi hs hfault, fresh_step hfresh hi hs⟩

theorem startAgrees_step_iff {s s' : State m} {a : Action} (h : StartInv s)
    (hagrees : StartAgrees s) (hs : step s a = some s') : StartAgrees s' ↔ StoredFirst s a := by
  obtain ⟨⟨hfault, he⟩, rfl⟩ := stepOf_eq_some.mp hs
  cases a with
  | start nullCq => exact iff_of_true (hagrees.start (h hfault).2 he.2 nullCq) trivial
  | await op => exact iff_of_true (hagrees.await he.1) trivial
  | store => exact iff_of_true (hagrees.store he) trivial
  | storeStale => exact absurd hagrees.late he
  | complete tag ok status => exact startAgrees_complete_iff hagrees (h hfault).1 he ok status
  | destroy => exact iff_of_true hagrees.destruct trivial

/-- `start` agrees with its stream all along a run exactly when the stream is stored before
the completion is handled. -/
theorem start_agrees_iff {as : List Action} : Always step StartAgrees (.init : State m) as ↔
    Guarded step StoredFirst (.init : State m) as := by
  have hagrees : StartAgrees (.init : State m) := by
    constructor <;> simp [State.init]
  exact always_iff_guarded_of_inv startInv_init hagrees (fun _ _ _ => startInv_step)
    (fun _ _ _ => startAgrees_step_iff) as

/-- The queue's thread handles the completion first; the coroutine's write throws. -/
def completedFirst : List Action :=
  [.start true, .complete ⟨.awaiter, 0, .start⟩ true {}, .await .write]

theorem completedFirst_disagrees : ∃ s : State .bidiStreaming,
    run step .init completedFirst = some s ∧ s.startResult = some true ∧ s.threw = [.write] ∧
      ¬StartAgrees s := by
  refine ⟨_, rfl, rfl, rfl, fun h => ?_⟩
  exact absurd (h.active rfl rfl (by decide)) (by decide)

end AsyncppGrpc.Call
