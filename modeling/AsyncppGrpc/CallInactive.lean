import AsyncppGrpc.CallStart

/-! Operations on a call without an active stream. `write`, `write_last` and `writes_done`
look at the stream before they return an awaiter; `read` and `finish` use it as it is. -/
namespace AsyncppGrpc.Call
open Run
variable {m : RpcMethodType}

/-- The coroutine may use the call, but `start` was never awaited, returned false, or was
followed by a `finish` that has returned. -/
structure Inactive (s : State m) : Prop where
  fault : s.fault = none
  life : s.life = .owned
  awaiting : s.awaiting = none
  history : .start ∉ s.awaited ∨ s.startResult = some false ∨ ∃ a ∈ s.resumed, a.op = .finish

/-- The operation throws; nothing is issued and nothing else changes. -/
def Rejected (s : State m) (op : Op) : Prop := await s op = { s with threw := s.threw ++ [op] }

/-- An operation is rejected exactly if it checks for a stream and there is none. -/
theorem rejected_iff {s : State m} {op : Op} (hs : op ≠ .start) (hawaiting : s.awaiting = none) :
    Rejected s op ↔ op.checked = true ∧ s.stream = false := by
  constructor
  · intro h
    by_contra hc
    obtain ⟨op', evt, -, heq⟩ := await_issues (s := s) hs (by simpa using hc)
    have hsus : (await s op).awaiting = some { op := op } := by simp [heq]
    rw [Rejected] at h
    rw [h] at hsus
    simp [hawaiting] at hsus
  · intro h
    rw [Rejected, await, if_pos]
    simp [h.1, h.2]

/-- An operation that does not check dereferences the null stream. -/
theorem await_nullStream {s : State m} {op : Op} (hs : op ≠ .start) (hc : op.checked = false)
    (hstream : s.stream = false) : (await s op).fault = some .nullStream := by
  obtain ⟨op', evt, -, heq⟩ := await_issues (s := s) hs (by simp [hc])
  simp [heq, issue, hstream]

/-- What the histories say of the stream once it is stored before it is handled. -/
structure Cleared (s : State m) : Prop where
  storing : s.storing = true → ∃ a, s.awaiting = some a ∧ a.op = .start
  starting : ∀ a, s.awaiting = some a → a.op = .start → .start ∈ s.awaited ∧ s.resumed = []
  unstarted : .start ∉ s.awaited → s.stream = false
  finished : ∀ a ∈ s.resumed, a.op = .finish → s.stream = false

/-- Everything but `start` and its completion: the stream is at most taken away, and has to
be where a `finish` returns. -/
theorem Cleared.frame {s s' : State m} (h : Cleared s)
    (hidle : ∀ a, s.awaiting = some a → a.op ≠ .start)
    (hidle' : ∀ a, s'.awaiting = some a → a.op ≠ .start) (hstoring : s'.storing = s.storing)
    (hlost : s'.stream = true → s.stream = true)
    (hawaited : .start ∈ s.awaited → .start ∈ s'.awaited)
    (hresumed : ∀ a ∈ s'.resumed, a.op = .finish → a ∈ s.resumed ∨ s'.stream = false) :
    Cleared s' where
  storing ht := by
    obtain ⟨a, ha, hs⟩ := h.storing (hstoring ▸ ht)
    exact absurd hs (hidle a ha)
  starting a ha hs := absurd hs (hidle' a ha)
  unstarted hn := by
    have hnone := h.unstarted fun hm => hn (hawaited hm)
    by_contra hstream
    simp [hlost (by simpa using hstream)] at hnone
  finished a ha hf := by
    rcases hresumed a ha hf with hold | hstream
    · by_contra hstream
      have hnone := h.finished a hold hf
      simp [hlost (by simpa using hstream)] at hnone
    · exact hstream

theorem Cleared.start (s : State m) (nullCq : Bool) : Cleared (start s nullCq) where
  storing _ := ⟨{ op := .start }, rfl, rfl⟩
  starting a _ _ := by simp [Call.start, awaitSuspend]
  unstarted hn := by simp [Call.start, awaitSuspend] at hn
  finished a ha := by simp [Call.start, awaitSuspend] at ha

theorem Cleared.await {s : State m} (h : Cleared s) {op : Op} (hs : op ≠ .start)
    (hawaiting : s.awaiting = none) : Cleared (await s op) := by
  rcases await_eq s hs with heq | ⟨op', evt, -, heq⟩
  · rw [heq]
    exact ⟨h.storing, h.starting, h.unstarted, h.finished⟩
  · rw [heq]
    apply h.frame
    · simp [hawaiting]
    · intro a ha
      obtain rfl : { op := op } = a := by simpa using ha
      exact hs
    · simp
    · simp
    · intro hm
      simp [hm]
    · intro a ha _
      exact .inl (by simpa using ha)

theorem Cleared.store {s : State m} (h : Cleared s) (hstoring : s.storing = true) :
    Cleared (store s) := by
  obtain ⟨a, ha, hs⟩ := h.storing hstoring
  obtain ⟨hstarted, hresumed⟩ := h.starting a ha hs
  constructor <;> simp [Call.store, hstarted, hresumed]

theorem Cleared.destruct {s : State m} (h : Cleared s) (hawaiting : s.awaiting = none) :
    Cleared (destruct s) := by
  by_cases hstream : s.stream
  · obtain ⟨op, evt, -, heq⟩ := issueLast_eq { s with cancelled := true, life := .detached }
      .state
    rw [Call.destruct, if_pos hstream, heq]
    apply h.frame <;> simp +contextual [hawaiting]
  · rw [Call.destruct, if_neg hstream]
    apply h.frame <;> simp +contextual [deleteThis, hawaiting]

theorem Cleared.stateHandleEvent {s : State m} (h : Cleared s) (hawaiting : s.awaiting = none)
    (hp : s.pending = []) (evt : Nat) : Cleared (stateHandleEvent s evt) := by
  cases evt with
  | zero => apply h.frame <;> simp +contextual [Call.stateHandleEvent, hawaiting]
  | succ k =>
    rw [Call.stateHandleEvent, resetStream_of_idle hp]
    · apply h.frame <;> simp +contextual [deleteThis, hawaiting]
    · simp

/-- `start` resumes the coroutine for the first time. -/
theorem Cleared.complete_start {s : State m} (h : Cleared s) {a : Awaiter}
    (ha : s.awaiting = some a) (hs : a.op = .start) (hp : s.pending = [])
    (hstoring : s.storing = false) {b : Awaiter} (hb : b.op = .start) (evt : Nat) (ok : Bool) :
    Cleared (awaiterHandleEvent s b evt ok) := by
  obtain ⟨hstarted, hresumed⟩ := h.starting a ha hs
  cases ok with
  | true =>
    simp only [awaiterHandleEvent, hb, if_true]
    constructor <;> simp [resume, hstoring, hstarted, hresumed]
  | false =>
    simp only [awaiterHandleEvent, hb, Bool.false_eq_true, if_false]
    rw [resetStream_of_idle (by exact hp)]
    constructor <;> simp [resume, hstoring]

/-- The completion of an operation other than `start`. -/
theorem Cleared.awaiterHandleEvent {s : State m} (h : Cleared s)
    (hidle : ∀ a, s.awaiting = some a → a.op ≠ .start) {b : Awaiter} (hs : b.op ≠ .start)
    (hp : s.pending = []) (evt : Nat) (ok : Bool) : Cleared (awaiterHandleEvent s b evt ok) := by
  by_cases hf : b.op = .finish
  · obtain ⟨c, hc, heq⟩ := awaiterHandleEvent_finish s hf evt ok
    rw [heq]
    split
    · apply h.frame hidle
      · intro a ha
        obtain rfl : c = a := by simpa using ha
        simp [hc]
      · simp
      · simp
      · simp
      · intro a ha _
        exact .inl (by simpa using ha)
    · rw [resetStream_of_idle hp]
      apply h.frame hidle <;> simp [resume]
  · rw [awaiterHandleEvent_operation s hs hf]
    apply h.frame hidle <;> simp +contextual [resume]
    intro a ha hfin
    rcases ha with ha | rfl
    · exact .inl ha
    · exact absurd hfin hf

theorem Cleared.complete {s : State m} (h : Cleared s) (hi : InFlight s) {tag : Tag} {ok : Bool}
    {status : Status} (henv : StoredFirst s (.complete tag ok status)) (hmem : tag ∈ s.pending) :
    Cleared (complete s tag ok status) := by
  rcases hi.complete_cases hmem ok status with
    ⟨a, evt, op, -, ha, rfl, hop, heq⟩ | ⟨evt, op, -, hawaiting, -, -, heq⟩
  · have htaken : Cleared ({ s with pending := [], log := s.log ++ [.done op ok] } : State m) :=
      ⟨h.storing, h.starting, h.unstarted, h.finished⟩
    rw [heq]
    by_cases hs : a.op = .start
    · exact htaken.complete_start ha hs rfl (henv (hop.mpr hs)) (by exact hs) evt ok
    · apply htaken.awaiterHandleEvent _ _ rfl
      · intro b hb
        obtain rfl : a = b := by simpa [ha] using hb
        exact hs
      · exact hs
  · have htaken : Cleared ({ s with
        pending := []
        log := s.log ++ [.done op ok]
        exitStatus := if op = .finish then status else s.exitStatus } : State m) :=
      ⟨h.storing, h.starting, h.unstarted, h.finished⟩
    rw [heq]
    exact htaken.stateHandleEvent hawaiting rfl evt

/-- What a run keeps in which every stream is stored first. -/
structure InactiveInv (s : State m) : Prop where
  start : StartInv s
  agrees : StartAgrees s
  cleared : Cleared s

theorem inactiveInv_step {s s' : State m} {a : Action} (h : InactiveInv s)
    (henv : StoredFirst s a) (hs : step s a = some s') : InactiveInv s' := by
  refine ⟨startInv_step h.start hs, (startAgrees_step_iff h.start h.agrees hs).mpr henv, ?_⟩
  obtain ⟨⟨hfault, he⟩, rfl⟩ := stepOf_eq_some.mp hs
  cases a with
  | start nullCq => exact .start s nullCq
  | await op => exact h.cleared.await he.1 he.2.2.2
  | store => exact h.cleared.store he
  | storeStale => exact absurd h.agrees.late he
  | complete tag ok status => exact h.cleared.complete (h.start hfault).1 henv he
  | destroy => exact h.cleared.destruct he.2

/-- Every history of an inactive call has left it without a stream. -/
theorem Inactive.stream {s : State m} (h : Inactive s) (hinv : InactiveInv s) :
    s.stream = false := by
  rcases h.history with hn | hfalse | ⟨a, ha, hf⟩
  · exact hinv.cleared.unstarted hn
  · exact hinv.agrees.failed hfalse
  · exact hinv.cleared.finished a ha hf

theorem inactiveInv_run {s : State m} {as : List Action}
    (hg : Guarded step StoredFirst (.init : State m) as)
    (hr : run step .init as = some s) : InactiveInv s := by
  apply inv_of_step (P := InactiveInv) _ (fun _ _ _ => inactiveInv_step) hg hr
  refine ⟨startInv_init, ?_, ?_⟩
  · constructor <;> simp [State.init]
  · constructor <;> simp [State.init]

/-- Whatever was awaited before, an inactive call rejects an operation exactly if that checks
for a stream and finds none. Where every stream is stored before the completion of its
`start` is handled there is none to find, so that `write`, `write_last` and `writes_done` are
rejected and `read` and `finish` dereference the null stream. -/
theorem inactive_rejected_iff {s : State m} {as : List Action}
    (hr : run step .init as = some s) (hi : Inactive s) {op : Op} (hs : op ≠ .start) :
    (Rejected s op ↔ op.checked = true ∧ s.stream = false) ∧
    (Guarded step StoredFirst (.init : State m) as →
      (Rejected s op ↔ op = .write ∨ op = .writeLast ∨ op = .writesDone) ∧
      (op = .read ∨ op = .finish → (await s op).fault = some .nullStream)) := by
  refine ⟨rejected_iff hs hi.awaiting, fun hg => ⟨?_, fun hop => ?_⟩⟩
  · have hstream := hi.stream (inactiveInv_run hg hr)
    rw [rejected_iff hs hi.awaiting]
    cases op <;> simp_all [Op.checked]
  · have hc : op.checked = false := by
      rcases hop with rfl | rfl <;> rfl
    exact await_nullStream hs hc (hi.stream (inactiveInv_run hg hr))

/-- The call that the server refused. -/
def failedStart : List Action :=
  [.start true, .store, .complete ⟨.awaiter, 0, .start⟩ false {}]

theorem failedStart_rejected : ∃ s : State .bidiStreaming,
    run step .init failedStart = some s ∧ Inactive s ∧ Rejected s .write ∧
      (await s .finish).fault = some .nullStream := by
  have hg : Guarded step StoredFirst (.init : State .bidiStreaming) failedStart := by decide
  obtain ⟨s, hr, hi⟩ : ∃ s : State .bidiStreaming, run step .init failedStart = some s ∧
      Inactive s := ⟨_, rfl, rfl, rfl, rfl, .inr (.inl rfl)⟩
  have hwrite := (inactive_rejected_iff hr hi (show Op.write ≠ .start by simp)).2 hg
  have hfinish := (inactive_rejected_iff hr hi (show Op.finish ≠ .start by simp)).2 hg
  exact ⟨s, hr, hi, hwrite.1.mpr (.inl rfl), hfinish.2 (.inr rfl)⟩

/-- A read on a bidi call that was never started. -/
theorem unstartedRead_nullStream : Inactive (.init : State .bidiStreaming) ∧
    Op.offered .bidiStreaming .read ∧ ¬Rejected (.init : State .bidiStreaming) .read ∧
    ∃ s, run step (.init : State .bidiStreaming) [.await .read] = some s ∧
      s.fault = some .nullStream := by
  refine ⟨⟨rfl, rfl, rfl, .inl (by decide)⟩, rfl, ?_, _, rfl, rfl⟩
  intro h
  simpa [Op.checked] using (rejected_iff (by simp) rfl).mp h

end AsyncppGrpc.Call
