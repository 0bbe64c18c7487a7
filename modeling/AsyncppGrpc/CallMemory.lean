import AsyncppGrpc.CallStart

/-! What a call must not touch: a null stream, a stream with an operation in flight that it
resets, a state that is deleted. The coroutine may use the call in any order, restart it and
destroy it at any time. -/
namespace AsyncppGrpc.Call
open Run
variable {m : RpcMethodType}

/-- `read` and `finish`, which do not check, are awaited with a stream. The result of a stub
method is assigned while the call is there, and its coroutine is not suspended in an operation
unless that is a `start` which has still to assign its own. -/
def StreamThere (s : State m) : Action → Prop
  | .await op => op.checked = true ∨ s.stream = true
  | .store | .storeStale =>
    s.life = .owned ∧ ∀ a ∈ s.awaiting, a.op = .start ∧ s.storing = true
  | _ => True

instance (s : State m) (a : Action) : Decidable (StreamThere s a) :=
  match a with
  | .await op => inferInstanceAs (Decidable (op.checked = true ∨ s.stream = true))
  | .store | .storeStale => inferInstanceAs
    (Decidable (s.life = .owned ∧ ∀ a ∈ s.awaiting, a.op = .start ∧ s.storing = true))
  | .start _ | .complete _ _ _ | .destroy => instDecidableTrue

/-- Whoever waits for a completion holds the stream, and a deleted state waits for none. -/
structure Held (s : State m) : Prop where
  inFlight : InFlight s
  operating : ∀ a, s.awaiting = some a → a.op ≠ .start → s.stream = true
  detached : s.life = .detached → s.stream = true ∧ s.pending ≠ []
  deleted : s.life = .deleted → s.pending = []

theorem held_init : Held (.init : State m) where
  inFlight := inFlight_init
  operating a h := by simp [State.init] at h
  detached h := by simp [State.init] at h
  deleted _ := rfl

theorem issue_fault {s : State m} (hf : s.fault = none) {op : Op} {receiver : Receiver}
    {evt : Nat} : (issue s op receiver evt).fault = none ↔ s.stream = true := by
  unfold issue
  split <;> simp_all

/-- A call that its owner still has. -/
theorem Held.of_owned {s : State m} (h : InFlight s) (hlife : s.life = .owned)
    (hop : ∀ a, s.awaiting = some a → a.op ≠ .start → s.stream = true) : Held s where
  inFlight := h
  operating := hop
  detached hd := by simp [hlife] at hd
  deleted hd := by simp [hlife] at hd

theorem Held.await {s : State m} (h : Held s) (hf : s.fault = none) {op : Op} (hs : op ≠ .start)
    (hlife : s.life = .owned) (hawaiting : s.awaiting = none)
    (hfault : (await s op).fault = none) : Held (await s op) := by
  have hi := h.inFlight.await hs hlife hawaiting hfault
  rcases await_eq s hs with heq | ⟨op', evt, -, heq⟩
  · rw [heq] at hi ⊢
    refine .of_owned hi hlife fun a ha => ?_
    simp [hawaiting] at ha
  · rw [heq] at hi hfault ⊢
    refine .of_owned hi (by simpa using hlife) fun a _ _ => ?_
    have hstream := (issue_fault (by exact hf)).mp hfault
    simpa using hstream

theorem Held.store {s : State m} (h : Held s) (hfault : (store s).fault = none) :
    Held (store s) := by
  have hi := h.inFlight.store hfault
  rw [Call.store, assign_eq (by exact hfault)] at hi ⊢
  exact ⟨hi, fun _ _ _ => rfl, fun hdet => ⟨rfl, (h.detached hdet).2⟩, h.deleted⟩

theorem Held.storeStale {s : State m} (h : Held s) (hfault : (storeStale s).fault = none) :
    Held (storeStale s) := by
  have hi := h.inFlight.storeStale hfault
  rw [Call.storeStale, assign_eq (by exact hfault)] at hi ⊢
  exact ⟨hi, fun _ _ _ => rfl, fun hdet => ⟨rfl, (h.detached hdet).2⟩, h.deleted⟩

/-- What the assignment must not find is known from who waits for the stream. -/
theorem Held.assign_fault {s : State m} (h : Held s) (hf : s.fault = none) :
    (assign s).fault = none ↔
      s.life = .owned ∧ ∀ a ∈ s.awaiting, a.op = .start ∧ s.storing = true := by
  rw [Call.assign_fault hf]
  constructor
  · rintro ⟨hdel, hall⟩
    have hlife : s.life = .owned := by
      by_contra hne
      obtain ⟨hstream, hp⟩ := h.detached (by cases hl : s.life <;> simp_all)
      obtain ⟨tag, hmem⟩ := List.exists_mem_of_ne_nil _ hp
      obtain ⟨-, htags⟩ := h.inFlight.abandoned hne
      obtain ⟨evt, op, hop, rfl, -⟩ := htags tag hmem
      exact hop (hall hstream _ hmem).1
    refine ⟨hlife, fun a ha => ?_⟩
    obtain ⟨-, evt, op, hp, hop⟩ := h.inFlight.suspended a ha
    by_cases hs : a.op = .start
    · refine ⟨hs, ?_⟩
      rcases (h.inFlight.starting a ha hs).2 with hstoring | hstream
      · exact hstoring
      · exact (hall hstream ⟨.awaiter, evt, op⟩ (by simp [hp])).2
    · have hstart := (hall (h.operating a ha hs) ⟨.awaiter, evt, op⟩ (by simp [hp])).1
      exact absurd (hop.mp hstart) hs
  · rintro ⟨hlife, hall⟩
    refine ⟨by simp [hlife], fun _ tag hmem => ?_⟩
    cases ha : s.awaiting with
    | none => simp [h.inFlight.running ha hlife] at hmem
    | some a =>
      obtain ⟨hs, hstoring⟩ := hall a ha
      obtain ⟨-, evt, op, hp, hop⟩ := h.inFlight.suspended a ha
      obtain rfl : tag = ⟨.awaiter, evt, op⟩ := by simpa [hp] using hmem
      exact ⟨hop.mpr hs, hstoring⟩

theorem Held.destruct {s : State m} (h : Held s) (hlife : s.life = .owned)
    (hawaiting : s.awaiting = none) (hfault : (destruct s).fault = none) :
    Held (destruct s) := by
  have hi := h.inFlight.destruct hlife hawaiting hfault
  have hp := h.inFlight.running hawaiting hlife
  by_cases hstream : s.stream = true
  · obtain ⟨op, evt, -, heq⟩ := issueLast_eq { s with cancelled := true, life := .detached } .state
    rw [Call.destruct, if_pos hstream, heq] at hi hfault ⊢
    refine ⟨hi, ?_, fun _ => ?_, ?_⟩
    · simp [hawaiting]
    · rw [issue_pending hfault]
      simpa using hstream
    · simp
  · rw [Call.destruct, if_neg hstream] at hi ⊢
    refine ⟨hi, ?_, ?_, fun _ => hp⟩
    · simp [deleteThis, hawaiting]
    · simp [deleteThis]

theorem awaiterHandleEvent_life (s : State m) (a : Awaiter) (evt : Nat) (ok : Bool)
    (hp : s.pending = []) : (awaiterHandleEvent s a evt ok).life = s.life := by
  cases hop : a.op with
  | start => cases ok <;> simp [awaiterHandleEvent, hop, resume, resetStream, hp]
  | finish =>
    obtain ⟨b, -, heq⟩ := awaiterHandleEvent_finish s hop evt ok
    rw [heq]
    split <;> simp [resume, resetStream, hp]
  | _ => simp [awaiterHandleEvent, hop, resume]

/-- Only the half-close of `finish` leaves the coroutine suspended. -/
theorem awaiterHandleEvent_awaiting {s : State m} {a : Awaiter} {evt : Nat} {ok : Bool}
    (hawaiting : (awaiterHandleEvent s a evt ok).awaiting ≠ none) :
    ∃ b : Awaiter, b.op = .finish ∧ awaiterHandleEvent s a evt ok =
      issue { s with awaiting := some b } .finish .awaiter 1 := by
  by_cases hf : a.op = .finish
  · obtain ⟨b, hb, heq⟩ := awaiterHandleEvent_finish s hf evt ok
    rw [heq] at hawaiting ⊢
    by_cases hevt : evt = 0
    · exact ⟨b, hb, if_pos hevt⟩
    · rw [if_neg hevt] at hawaiting
      exact absurd rfl hawaiting
  · by_cases hs : a.op = .start
    · cases ok <;> simp [awaiterHandleEvent, hs, resume] at hawaiting
    · rw [awaiterHandleEvent_operation s hs hf] at hawaiting
      exact absurd rfl hawaiting

theorem Held.stateHandleEvent {s : State m} {evt : Nat} (hi : InFlight (stateHandleEvent s evt))
    (hf : s.fault = none) (hdet : s.life = .detached) (hawaiting : s.awaiting = none)
    (hp : s.pending = []) (hfault : (stateHandleEvent s evt).fault = none) :
    Held (stateHandleEvent s evt) := by
  cases evt with
  | zero =>
    have hstream : s.stream = true := (issue_fault hf).mp hfault
    have hpend : (Call.stateHandleEvent s 0).pending = s.pending ++ [⟨.state, 1, .finish⟩] :=
      issue_pending hfault
    refine ⟨hi, ?_, fun _ => ⟨?_, by simp [hpend]⟩, ?_⟩
    · simp [Call.stateHandleEvent, hawaiting]
    · simpa [Call.stateHandleEvent] using hstream
    · simp [Call.stateHandleEvent, hdet]
  | succ k =>
    rw [Call.stateHandleEvent, resetStream_of_idle hp] at hi ⊢
    · refine ⟨hi, ?_, ?_, fun _ => hp⟩
      · simp [deleteThis, hawaiting]
      · simp [deleteThis]
    all_goals simp

/-- What completes while nobody owns the call completes for an abandoned state. -/
theorem Held.detached_of_mem {s : State m} (h : Held s) (hlife : s.life ≠ .owned) {tag : Tag}
    (hmem : tag ∈ s.pending) : s.life = .detached := by
  cases hl : s.life with
  | owned => exact absurd hl hlife
  | detached => rfl
  | deleted => simp [h.deleted hl] at hmem

theorem Held.complete {s : State m} (h : Held s) (hf : s.fault = none) {tag : Tag}
    (hmem : tag ∈ s.pending) {ok : Bool} {status : Status}
    (hfault : (complete s tag ok status).fault = none) : Held (complete s tag ok status) := by
  have hi := h.inFlight.complete hmem hfault
  rcases h.inFlight.complete_cases hmem ok status with
    ⟨a, evt, op, hlife, -, -, -, heq⟩ | ⟨evt, op, hlife, hawaiting, -, -, heq⟩
  · rw [heq] at hi hfault ⊢
    refine .of_owned hi ?_ fun b hb _ => ?_
    · rw [awaiterHandleEvent_life _ _ _ _ rfl]
      exact hlife
    · obtain ⟨c, -, hissue⟩ := awaiterHandleEvent_awaiting (Option.ne_none_iff_exists'.mpr ⟨b, hb⟩)
      rw [hissue] at hfault ⊢
      have hstream := (issue_fault (by exact hf)).mp hfault
      simpa using hstream
  · rw [heq] at hi hfault ⊢
    exact .stateHandleEvent hi hf (h.detached_of_mem hlife hmem) hawaiting rfl hfault

theorem awaiterHandleEvent_fault {s : State m} {a : Awaiter} (hf : s.fault = none)
    (hp : s.pending = []) (hop : a.op ≠ .start → s.stream = true) (evt : Nat) (ok : Bool) :
    (awaiterHandleEvent s a evt ok).fault = none := by
  by_cases hfin : a.op = .finish
  · obtain ⟨b, -, heq⟩ := awaiterHandleEvent_finish s hfin evt ok
    rw [heq]
    split
    · exact (issue_fault (by exact hf)).mpr (hop (by simp [hfin]))
    · rw [resetStream_of_idle hp]
      exact hf
  · by_cases hs : a.op = .start
    · cases ok <;> simpa [awaiterHandleEvent, hs, resume, resetStream, hp] using hf
    · rw [awaiterHandleEvent_operation s hs hfin]
      exact hf

/-- A completion finds everything it touches. -/
theorem Held.complete_fault {s : State m} (h : Held s) (hf : s.fault = none) {tag : Tag}
    (hmem : tag ∈ s.pending) (ok : Bool) (status : Status) :
    (Call.complete s tag ok status).fault = none := by
  rcases h.inFlight.complete_cases hmem ok status with
    ⟨a, evt, op, -, ha, -, -, heq⟩ | ⟨evt, op, hlife, -, -, -, heq⟩
  · rw [heq]
    refine awaiterHandleEvent_fault ?_ rfl ?_ evt ok
    · exact hf
    · exact h.operating a ha
  · rw [heq]
    cases evt with
    | zero =>
      refine (issue_fault (by exact hf)).mpr ?_
      exact (h.detached (h.detached_of_mem hlife hmem)).1
    | succ k =>
      rw [Call.stateHandleEvent, resetStream_of_idle rfl]
      · exact hf
      · simp

theorem await_fault {s : State m} (hf : s.fault = none) {op : Op} (hs : op ≠ .start) :
    (await s op).fault = none ↔ StreamThere s (.await op) := by
  by_cases hc : (op.checked && !s.stream) = true
  · rw [await, if_pos hc]
    simp only [Bool.and_eq_true] at hc
    exact iff_of_true hf (.inl hc.1)
  · obtain ⟨op', evt, -, heq⟩ := await_issues hs hc
    rw [heq, issue_fault (by exact hf)]
    cases hstream : s.stream <;> simp_all [StreamThere]

theorem destruct_fault {s : State m} (hf : s.fault = none) : (destruct s).fault = none := by
  by_cases hstream : s.stream = true
  · obtain ⟨op, evt, -, heq⟩ := issueLast_eq { s with cancelled := true, life := .detached } .state
    rw [destruct, if_pos hstream, heq]
    exact (issue_fault (by exact hf)).mpr hstream
  · rw [destruct, if_neg hstream]
    exact hf

def HeldInv (s : State m) : Prop := s.fault = none → Held s

theorem heldInv_step {s s' : State m} {a : Action} (h : HeldInv s) (hs : step s a = some s') :
    HeldInv s' := by
  obtain ⟨⟨hf, he⟩, rfl⟩ := stepOf_eq_some.mp hs
  have hh := h hf
  intro hfault
  cases a with
  | start nullCq =>
    refine .of_owned (hh.inFlight.start he.1 he.2 nullCq) he.1 fun a ha hop => ?_
    obtain rfl : { op := .start } = a := by simpa [next, start, awaitSuspend] using ha
    exact absurd rfl hop
  | await op => exact hh.await hf he.1 he.2.2.1 he.2.2.2 hfault
  | store => exact hh.store hfault
  | storeStale => exact hh.storeStale hfault
  | complete tag ok status => exact hh.complete hf he hfault
  | destroy => exact hh.destruct he.1 he.2 hfault

theorem fault_step_iff {s s' : State m} {a : Action} (h : HeldInv s) (hf : s.fault = none)
    (hs : step s a = some s') : s'.fault = none ↔ StreamThere s a := by
  obtain ⟨⟨-, he⟩, rfl⟩ := stepOf_eq_some.mp hs
  cases a with
  | start nullCq => exact iff_of_true hf trivial
  | await op => exact await_fault hf he.1
  | store => exact (h hf).assign_fault hf
  | storeStale => exact (h hf).assign_fault hf
  | complete tag ok status => exact iff_of_true ((h hf).complete_fault hf he ok status) trivial
  | destroy => exact iff_of_true (destruct_fault hf) trivial

/-- In whatever order a coroutine starts, uses, restarts and destroys a call, and whenever its
completions arrive and the results of its stub methods are assigned: no null stream is used, no
stream is destroyed under an operation and no deleted state is written to exactly if `read` and
`finish` are awaited with a stream and every result is assigned while the call is there and its
coroutine waits for nothing, or for a `start` that has still to assign its own. -/
theorem memory_safe_iff (as : List Action) :
    Always step (fun s => s.fault = none) (.init : State m) as ↔
      Guarded step StreamThere (.init : State m) as := by
  apply always_iff_guarded_of_inv (I := HeldInv)
  · exact fun _ => held_init
  · rfl
  · exact fun _ _ _ => heldInv_step
  · exact fun _ _ _ => fault_step_iff

/-- A restart that is done before it has assigned its result assigns it under the `write` that
its coroutine has begun on the stream it replaces. -/
example : (run step (.init : State .bidiStreaming)
    [.start false, .store, .complete ⟨.awaiter, 0, .start⟩ true {}, .start false,
      .complete ⟨.awaiter, 0, .start⟩ true {}, .await .write, .store]).map (·.fault) =
    some (some .streamInFlight) := rfl

end AsyncppGrpc.Call
