import AsyncppGrpc.Call

/-! A call that is used as intended keeps the contract of its stream: what it issues and what
completes is a run of `StreamContract`, through the teardown to the deletion of the state. -/
namespace AsyncppGrpc.Call
open Run StreamContract
variable {m : RpcMethodType}

/-- `start` is awaited once and its stream stored before its completion is handled; the rest
is awaited only if it returned true, `finish` last, and nothing is written after an explicit
half-close. -/
def Disciplined (s : State m) : Action → Prop
  | .start _ => .start ∉ s.awaited
  | .await op => s.startResult = some true ∧ .finish ∉ s.awaited ∧
      (op.checked → .writeLast ∉ s.awaited ∧ .writesDone ∉ s.awaited)
  | .complete tag _ _ => tag.op = .start → s.storing = false
  | _ => True

instance (s : State m) (a : Action) : Decidable (Disciplined s a) :=
  match a with
  | .start _ => inferInstanceAs (Decidable (.start ∉ s.awaited))
  | .await op => inferInstanceAs (Decidable (s.startResult = some true ∧ .finish ∉ s.awaited ∧
      (op.checked → .writeLast ∉ s.awaited ∧ .writesDone ∉ s.awaited)))
  | .complete tag _ _ => inferInstanceAs (Decidable (tag.op = .start → s.storing = false))
  | .store | .storeStale | .destroy => instDecidableTrue

/-- Nothing is in flight. -/
structure Resting (s : State m) : Prop where
  life : s.life ≠ .detached
  awaiting : s.awaiting = none
  storing : s.storing = false
  pending : s.pending = []

/-- The coroutine is suspended in `a`, which waits for `tag`. -/
structure Suspended (s : State m) (a : Awaiter) (tag : Tag) : Prop where
  life : s.life = .owned
  awaiting : s.awaiting = some a
  pending : s.pending = [tag]

/-- `start` has returned true and the stream is there. -/
structure Active (s : State m) : Prop where
  stream : s.stream = true
  storing : s.storing = false
  startResult : s.startResult = some true
  started : .start ∈ s.awaited

/-- `m_need_writes_done` before `finish`. -/
structure Owes (s : State m) (closed : Bool) : Prop where
  need : s.needWritesDone = (m.isClientStreaming && !closed)
  writing : closed = true → m.isClientStreaming = true
  open_ : .writeLast ∉ s.awaited → .writesDone ∉ s.awaited → closed = false
  finish : .finish ∉ s.awaited

/-- The states of a call used as intended, each with the state of its stream. -/
inductive Situation (s : State m) : Wire Op → Prop
  | idle : Resting s → s.stream = false → s.startResult = none → s.needWritesDone = false →
      s.awaited = [] → Situation s ⟨.idle, false⟩
  | starting (a : Awaiter) : Suspended s a ⟨.awaiter, 0, .start⟩ → a.op = .start →
      s.stream = !s.storing → s.startResult = none → s.needWritesDone = false →
      s.awaited = [.start] → Situation s ⟨.busy .start, false⟩
  | failed : Resting s → s.stream = false → s.startResult = some false → .start ∈ s.awaited →
      Situation s ⟨.failed, false⟩
  | ready (closed : Bool) : Resting s → s.life = .owned → Active s → Owes s closed →
      Situation s ⟨.ready, closed⟩
  | operating (a : Awaiter) (closed : Bool) : Suspended s a ⟨.awaiter, 0, a.op⟩ → Active s →
      Owes s closed → a.op ∈ s.awaited → a.op.offered m → a.op ≠ .start → a.op ≠ .finish →
      (a.op.checked → closed = false) → Situation s ⟨.busy a.op, closed⟩
  | closing (a : Awaiter) : Suspended s a ⟨.awaiter, 0, .writesDone⟩ → a.op = .finish →
      Active s → .finish ∈ s.awaited → m.isClientStreaming = true →
      Situation s ⟨.busy .writesDone, false⟩
  | finishing (a : Awaiter) : Suspended s a ⟨.awaiter, 1, .finish⟩ → a.op = .finish →
      Active s → .finish ∈ s.awaited → Situation s ⟨.busy .finish, m.isClientStreaming⟩
  | abandonedClosing : s.life = .detached → s.awaiting = none →
      s.pending = [⟨.state, 0, .writesDone⟩] → Active s → m.isClientStreaming = true →
      Situation s ⟨.busy .writesDone, false⟩
  | abandonedFinishing : s.life = .detached → s.awaiting = none →
      s.pending = [⟨.state, 1, .finish⟩] → Active s →
      Situation s ⟨.busy .finish, m.isClientStreaming⟩
  | finished (closed : Bool) : Resting s → s.stream = false → s.startResult = some true →
      .start ∈ s.awaited → (s.life = .owned → .finish ∈ s.awaited) →
      Situation s ⟨.finished, closed⟩

/-- The log is a run of the contract to the state the call is in. -/
structure Tracks (s : State m) (w : Wire Op) : Prop where
  fault : s.fault = none
  log : run (accept Op.role m.isClientStreaming) .init s.log = some w
  situation : Situation s w

theorem tracks_init : Tracks (.init : State m) .init where
  fault := rfl
  log := rfl
  situation := .idle ⟨by simp [State.init], rfl, rfl, rfl⟩ rfl rfl rfl rfl

theorem accept_log {s : State m} {w : Wire Op} {e : Event Op}
    (h : run (accept Op.role m.isClientStreaming) .init s.log = some w)
    (he : StreamContract.Enabled Op.role m.isClientStreaming w e) :
    run (accept Op.role m.isClientStreaming) .init (s.log ++ [e]) =
      some (StreamContract.next Op.role w e) := by
  rw [run_append, h]
  exact run_single he

theorem Tracks.start {s : State m} {w : Wire Op} (h : Tracks s w) {nullCq : Bool}
    (henv : .start ∉ s.awaited) (hlife : s.life = .owned) (hawaiting : s.awaiting = none) :
    ∃ w', Tracks (start s nullCq) w' := by
  obtain ⟨hfault, hlog, hsit⟩ := h
  cases hsit with
  | idle hrest hstream hres hneed hawaited =>
    refine ⟨_, hfault, accept_log hlog (e := .issue .start) rfl, ?_⟩
    refine .starting { op := .start } ⟨hlife, rfl, ?_⟩ rfl ?_ rfl hneed ?_
    · simp [Call.start, awaitSuspend, hrest.pending]
    · simp [Call.start, awaitSuspend, hstream]
    · simp [Call.start, awaitSuspend]
  | starting a hsus => simp [hsus.awaiting] at hawaiting
  | failed _ _ _ hs => exact absurd hs henv
  | ready c _ _ hact => exact absurd hact.started henv
  | operating a c hsus => simp [hsus.awaiting] at hawaiting
  | closing a hsus => simp [hsus.awaiting] at hawaiting
  | finishing a hsus => simp [hsus.awaiting] at hawaiting
  | abandonedClosing hd => simp [hlife] at hd
  | abandonedFinishing hd => simp [hlife] at hd
  | finished c _ _ _ hs => exact absurd hs henv

/-- Every operation but `start` and `finish` issues itself. -/
theorem await_eq_issue {s : State m} {op : Op} (hstream : s.stream = true) (hs : op ≠ .start)
    (hf : op ≠ .finish) : await s op = issue { s with
      awaiting := some { op := op }, awaited := s.awaited ++ [op] } op .awaiter 0 := by
  cases op <;> simp_all [await, awaitSuspend]

theorem Active.append {s : State m} (h : Active s) {s' : State m} {op : Op}
    (hstream : s'.stream = s.stream) (hstoring : s'.storing = s.storing)
    (hres : s'.startResult = s.startResult) (hawaited : s'.awaited = s.awaited ++ [op]) :
    Active s' where
  stream := hstream.trans h.stream
  storing := hstoring.trans h.storing
  startResult := hres.trans h.startResult
  started := by
    rw [hawaited]
    exact List.mem_append_left _ h.started

/-- The contract allows every operation the call offers before a half-close. -/
theorem allowed_of_offered {closed : Bool} {op : Op} (hoff : op.offered m) (hs : op ≠ .start)
    (hf : op ≠ .finish) (hopen : op.checked → closed = false) :
    Allowed m.isClientStreaming closed op.role := by
  cases op <;> simp_all [Op.role, Allowed, Op.offered, Op.checked]

/-- What `finish` and the teardown issue: a half-close exactly when one is still owed. -/
theorem Owes.issueLast {s : State m} {closed : Bool} (h : Owes s closed) (t : State m)
    (hn : t.needWritesDone = s.needWritesDone) (receiver : Receiver) :
    closed = false ∧ m.isClientStreaming = true ∧
      issueLast t receiver = issue t .writesDone receiver 0 ∨
    closed = m.isClientStreaming ∧ issueLast t receiver = issue t .finish receiver 1 := by
  have hneed := hn.trans h.need
  have hwriting := h.writing
  cases closed <;> cases hw : m.isClientStreaming <;> simp_all [Call.issueLast]

theorem Tracks.operate {s : State m} {closed : Bool} (h : Tracks s ⟨.ready, closed⟩)
    (hrest : Resting s) (hlife : s.life = .owned) (hact : Active s) (howes : Owes s closed)
    {op : Op} (hoff : op.offered m) (hs : op ≠ .start) (hf : op ≠ .finish)
    (hopen : op.checked → closed = false) : Tracks (await s op) ⟨.busy op, closed⟩ := by
  rw [await_eq_issue hact.stream hs hf, issue_of_stream (by exact hact.stream)]
  refine ⟨h.fault, accept_log h.log (allowed_of_offered hoff hs hf hopen), ?_⟩
  refine .operating { op := op } closed ⟨hlife, rfl, ?_⟩ ?_ ?_ ?_ hoff hs hf hopen
  · simp [hrest.pending]
  · exact hact.append rfl rfl rfl rfl
  · refine ⟨howes.need, howes.writing, fun hl hd => ?_, ?_⟩
    · exact howes.open_ (fun hm => hl (List.mem_append_left _ hm))
        (fun hm => hd (List.mem_append_left _ hm))
    · simpa [howes.finish] using Ne.symm hf
  · simp

theorem Tracks.finish {s : State m} {closed : Bool} (h : Tracks s ⟨.ready, closed⟩)
    (hrest : Resting s) (hlife : s.life = .owned) (hact : Active s) (howes : Owes s closed) :
    ∃ w', Tracks (await s .finish) w' := by
  have hawait : await s .finish = issueLast { s with
      awaiting := some { op := .finish }, awaited := s.awaited ++ [.finish] } .awaiter := rfl
  rcases howes.issueLast { s with
      awaiting := some { op := .finish }, awaited := s.awaited ++ [.finish] } rfl .awaiter with
    ⟨rfl, hw, hlast⟩ | ⟨rfl, hlast⟩
  · rw [hawait, hlast, issue_of_stream (by exact hact.stream)]
    refine ⟨_, h.fault, accept_log h.log (e := .issue .writesDone) ⟨hw, rfl⟩, ?_⟩
    refine .closing { op := .finish } ⟨hlife, rfl, ?_⟩ rfl ?_ ?_ hw
    · simp [hrest.pending]
    · exact hact.append rfl rfl rfl rfl
    · simp
  · rw [hawait, hlast, issue_of_stream (by exact hact.stream)]
    refine ⟨_, h.fault, accept_log h.log (e := .issue .finish) rfl, ?_⟩
    refine .finishing { op := .finish } ⟨hlife, rfl, ?_⟩ rfl ?_ ?_
    · simp [hrest.pending]
    · exact hact.append rfl rfl rfl rfl
    · simp

theorem Tracks.await {s : State m} {w : Wire Op} (h : Tracks s w) {op : Op}
    (henv : Disciplined s (.await op)) (hs : op ≠ .start) (hoff : op.offered m)
    (hlife : s.life = .owned) (hawaiting : s.awaiting = none) :
    ∃ w', Tracks (await s op) w' := by
  obtain ⟨hres, hfin, hopen⟩ := henv
  cases h.situation with
  | idle _ _ hnone => simp [hres] at hnone
  | starting a hsus => simp [hsus.awaiting] at hawaiting
  | failed _ _ hfalse => simp [hres] at hfalse
  | ready closed hrest _ hact howes =>
    by_cases hf : op = .finish
    · subst op
      exact h.finish hrest hlife hact howes
    · exact ⟨_, h.operate hrest hlife hact howes hoff hs hf fun hc =>
        howes.open_ (hopen hc).1 (hopen hc).2⟩
  | operating a c hsus => simp [hsus.awaiting] at hawaiting
  | closing a hsus => simp [hsus.awaiting] at hawaiting
  | finishing a hsus => simp [hsus.awaiting] at hawaiting
  | abandonedClosing hd => simp [hlife] at hd
  | abandonedFinishing hd => simp [hlife] at hd
  | finished c _ _ _ _ hf => exact absurd (hf hlife) hfin

theorem Tracks.store {s : State m} {w : Wire Op} (h : Tracks s w) (hstoring : s.storing) :
    Tracks (store s) w := by
  obtain ⟨hfault, hlog, hsit⟩ := h
  cases hsit with
  | starting a hsus ha hstream hres hneed hawaited =>
    have hassign : (assign s).fault = none :=
      (assign_fault hfault).mpr ⟨by simp [hsus.life], by simp [hstream, hstoring]⟩
    rw [Call.store, assign_eq hassign]
    exact ⟨hfault, hlog, .starting a ⟨hsus.life, hsus.awaiting, hsus.pending⟩ ha rfl hres hneed
      hawaited⟩
  | idle hrest => simp [hrest.storing] at hstoring
  | failed hrest => simp [hrest.storing] at hstoring
  | ready c hrest => simp [hrest.storing] at hstoring
  | operating a c _ hact => simp [hact.storing] at hstoring
  | closing a _ _ hact => simp [hact.storing] at hstoring
  | finishing a _ _ hact => simp [hact.storing] at hstoring
  | abandonedClosing _ _ _ hact => simp [hact.storing] at hstoring
  | abandonedFinishing _ _ _ hact => simp [hact.storing] at hstoring
  | finished c hrest => simp [hrest.storing] at hstoring

/-- The assignment of `start` is over when anything else is awaited. -/
theorem Situation.storing {s : State m} {w : Wire Op} (h : Situation s w)
    (hawaiting : s.awaiting = none) : s.storing = false := by
  cases h with
  | idle hrest => exact hrest.storing
  | starting a hsus => simp [hsus.awaiting] at hawaiting
  | failed hrest => exact hrest.storing
  | ready c hrest => exact hrest.storing
  | operating a c _ hact => exact hact.storing
  | closing a _ _ hact => exact hact.storing
  | finishing a _ _ hact => exact hact.storing
  | abandonedClosing _ _ _ hact => exact hact.storing
  | abandonedFinishing _ _ _ hact => exact hact.storing
  | finished c hrest => exact hrest.storing

theorem deleteThis_resting {s : State m} (hrest : Resting s) : Resting (deleteThis s) :=
  ⟨by simp [deleteThis], hrest.awaiting, hrest.storing, hrest.pending⟩

/-- Whatever the destructor finds, it deletes the state or has it delete itself. -/
theorem Tracks.destruct {s : State m} {w : Wire Op} (h : Tracks s w) (hlife : s.life = .owned)
    (hawaiting : s.awaiting = none) : ∃ w', Tracks (destruct s) w' := by
  obtain ⟨hfault, hlog, hsit⟩ := h
  cases hsit with
  | idle hrest hstream hres hneed hawaited =>
    simp only [Call.destruct, hstream, Bool.false_eq_true, if_false]
    exact ⟨_, hfault, hlog, .idle (deleteThis_resting hrest) hstream hres hneed hawaited⟩
  | failed hrest hstream hres hs =>
    simp only [Call.destruct, hstream, Bool.false_eq_true, if_false]
    exact ⟨_, hfault, hlog, .failed (deleteThis_resting hrest) hstream hres hs⟩
  | finished c hrest hstream hres hs =>
    simp only [Call.destruct, hstream, Bool.false_eq_true, if_false]
    exact ⟨_, hfault, hlog, .finished c (deleteThis_resting hrest) hstream hres hs
      (by simp [deleteThis])⟩
  | ready closed hrest _ hact howes =>
    rw [Call.destruct, if_pos hact.stream]
    rcases howes.issueLast { s with cancelled := true, life := .detached } rfl .state with
      ⟨rfl, hw, hlast⟩ | ⟨rfl, hlast⟩
    · rw [hlast, issue_of_stream (by exact hact.stream)]
      refine ⟨_, hfault, accept_log hlog (e := .issue .writesDone) ⟨hw, rfl⟩, ?_⟩
      refine .abandonedClosing rfl hawaiting ?_ ⟨hact.1, hact.2, hact.3, hact.4⟩ hw
      simp [hrest.pending]
    · rw [hlast, issue_of_stream (by exact hact.stream)]
      refine ⟨_, hfault, accept_log hlog (e := .issue .finish) rfl, ?_⟩
      refine .abandonedFinishing rfl hawaiting ?_ ⟨hact.1, hact.2, hact.3, hact.4⟩
      simp [hrest.pending]
  | starting a hsus => simp [hsus.awaiting] at hawaiting
  | operating a c hsus => simp [hsus.awaiting] at hawaiting
  | closing a hsus => simp [hsus.awaiting] at hawaiting
  | finishing a hsus => simp [hsus.awaiting] at hawaiting
  | abandonedClosing hd => simp [hlife] at hd
  | abandonedFinishing hd => simp [hlife] at hd

/-- `start` completes once its stream is stored. -/
theorem Tracks.complete_start {s : State m} (h : Tracks s ⟨.busy .start, false⟩) {a : Awaiter}
    (hsus : Suspended s a ⟨.awaiter, 0, .start⟩) (ha : a.op = .start)
    (hstoring : s.storing = false) (hstream : s.stream = true) (hneed : s.needWritesDone = false)
    (hawaited : s.awaited = [.start]) (ok : Bool) (status : Status) :
    ∃ w', Tracks (complete s ⟨.awaiter, 0, .start⟩ ok status) w' := by
  rw [complete_awaiter hsus.awaiting hsus.pending]
  cases ok with
  | true =>
    simp only [awaiterHandleEvent, ha, resume, if_true]
    refine ⟨_, h.fault, accept_log h.log (e := .done .start true) rfl, ?_⟩
    refine .ready false ⟨by simp [hsus.life], rfl, hstoring, rfl⟩ hsus.life
      ⟨hstream, hstoring, rfl, by simp [hawaited]⟩ ?_
    refine ⟨?_, by simp, fun _ _ => rfl, by simp [hawaited]⟩
    cases hm : m.isClientStreaming <;> simp [hneed]
  | false =>
    simp only [awaiterHandleEvent, ha, resume, resetStream, List.isEmpty_nil, Bool.not_true,
      Bool.and_false, Bool.false_eq_true, if_false]
    refine ⟨_, h.fault, accept_log h.log (e := .done .start false) rfl, ?_⟩
    exact .failed ⟨by simp [hsus.life], rfl, hstoring, rfl⟩ rfl rfl (by simp [hawaited])

theorem Tracks.complete_operation {s : State m} {a : Awaiter} {closed : Bool}
    (h : Tracks s ⟨.busy a.op, closed⟩) (hsus : Suspended s a ⟨.awaiter, 0, a.op⟩)
    (hact : Active s) (howes : Owes s closed) (hmem : a.op ∈ s.awaited) (hoff : a.op.offered m)
    (hs : a.op ≠ .start) (hf : a.op ≠ .finish) (ok : Bool) (status : Status) :
    ∃ w', Tracks (complete s ⟨.awaiter, 0, a.op⟩ ok status) w' := by
  rw [complete_awaiter hsus.awaiting hsus.pending,
    awaiterHandleEvent_operation _ (by exact hs) (by exact hf)]
  refine ⟨_, h.fault, accept_log h.log (e := .done a.op ok) rfl, ?_⟩
  by_cases hr : a.op.role = .halfClose
  · simp only [StreamContract.next, hr]
    refine .ready true ⟨by simp [resume, hsus.life], rfl, hact.storing, rfl⟩ hsus.life
      ⟨hact.1, hact.2, hact.3, hact.4⟩ ⟨by simp [resume], ?_, ?_, howes.finish⟩
    · cases hop : a.op <;> simp_all [Op.offered, Op.role]
    · cases hop : a.op <;> simp_all [Op.role, resume]
  · have hnext : StreamContract.next Op.role ⟨.busy a.op, closed⟩ (.done a.op ok) =
        ⟨.ready, closed⟩ := by
      cases hop : a.op <;> simp_all [Op.role, StreamContract.next]
    rw [hnext, if_neg hr]
    exact .ready closed ⟨by simp [resume, hsus.life], rfl, hact.storing, rfl⟩ hsus.life
      ⟨hact.1, hact.2, hact.3, hact.4⟩ ⟨howes.1, howes.2, howes.3, howes.4⟩

/-- The half-close of `finish` or of the teardown is followed by Finish. -/
theorem accept_closing {s : State m} (hw : m.isClientStreaming = true) (ok : Bool)
    (h : run (accept Op.role m.isClientStreaming) .init s.log =
      some ⟨.busy .writesDone, false⟩) :
    run (accept Op.role m.isClientStreaming) .init
      (s.log ++ [.done .writesDone ok] ++ [.issue .finish]) =
        some ⟨.busy .finish, m.isClientStreaming⟩ := by
  have hdone := accept_log h (e := .done .writesDone ok) rfl
  have hissue := accept_log (s := { s with log := s.log ++ [.done .writesDone ok] }) hdone
    (e := .issue .finish) hw.symm
  rw [hissue]
  simp [StreamContract.next, Op.role, hw]

/-- The first phase of `finish` goes on to Finish, whatever became of the half-close. -/
theorem Tracks.complete_closing {s : State m} {a : Awaiter}
    (h : Tracks s ⟨.busy .writesDone, false⟩) (hsus : Suspended s a ⟨.awaiter, 0, .writesDone⟩)
    (ha : a.op = .finish) (hact : Active s) (hfin : .finish ∈ s.awaited)
    (hw : m.isClientStreaming = true) (ok : Bool) (status : Status) :
    ∃ w', Tracks (complete s ⟨.awaiter, 0, .writesDone⟩ ok status) w' := by
  rw [complete_awaiter hsus.awaiting hsus.pending]
  simp only [awaiterHandleEvent, ha]
  rw [issue_of_stream (by exact hact.stream)]
  refine ⟨_, h.fault, accept_closing hw ok h.log, ?_⟩
  exact .finishing _ ⟨hsus.life, rfl, rfl⟩ (by cases ok <;> simp)
    ⟨hact.1, hact.2, hact.3, hact.4⟩ hfin

theorem Tracks.complete_finish {s : State m} {a : Awaiter}
    (h : Tracks s ⟨.busy .finish, m.isClientStreaming⟩)
    (hsus : Suspended s a ⟨.awaiter, 1, .finish⟩) (ha : a.op = .finish) (hact : Active s)
    (hfin : .finish ∈ s.awaited) (ok : Bool) (status : Status) :
    ∃ w', Tracks (complete s ⟨.awaiter, 1, .finish⟩ ok status) w' := by
  rw [complete_awaiter hsus.awaiting hsus.pending]
  simp only [awaiterHandleEvent, ha, resume, resetStream, List.isEmpty_nil, Bool.not_true,
    Bool.and_false, Bool.false_eq_true, if_false]
  refine ⟨_, h.fault, accept_log h.log (e := .done .finish ok) rfl, ?_⟩
  exact .finished _ ⟨by simp [hsus.life], rfl, hact.storing, rfl⟩ rfl hact.startResult
    hact.started fun _ => hfin

/-- The teardown's half-close is followed by its Finish. -/
theorem Tracks.complete_abandonedClosing {s : State m}
    (h : Tracks s ⟨.busy .writesDone, false⟩) (hlife : s.life = .detached)
    (hawaiting : s.awaiting = none) (hp : s.pending = [⟨.state, 0, .writesDone⟩])
    (hact : Active s) (hw : m.isClientStreaming = true) (ok : Bool) (status : Status) :
    ∃ w', Tracks (complete s ⟨.state, 0, .writesDone⟩ ok status) w' := by
  rw [complete_state hp, stateHandleEvent, issue_of_stream (by exact hact.stream)]
  refine ⟨_, h.fault, accept_closing hw ok h.log, ?_⟩
  exact .abandonedFinishing hlife hawaiting rfl ⟨hact.1, hact.2, hact.3, hact.4⟩

theorem Tracks.complete_abandonedFinishing {s : State m}
    (h : Tracks s ⟨.busy .finish, m.isClientStreaming⟩) (hawaiting : s.awaiting = none)
    (hp : s.pending = [⟨.state, 1, .finish⟩]) (hact : Active s) (ok : Bool) (status : Status) :
    ∃ w', Tracks (complete s ⟨.state, 1, .finish⟩ ok status) w' := by
  rw [complete_state hp]
  simp only [stateHandleEvent, resetStream, List.isEmpty_nil, Bool.not_true, Bool.and_false,
    Bool.false_eq_true, if_false]
  refine ⟨_, h.fault, accept_log h.log (e := .done .finish ok) rfl, ?_⟩
  exact .finished _ ⟨by simp [deleteThis], hawaiting, hact.storing, rfl⟩ rfl hact.startResult
    hact.started (by simp [deleteThis])

theorem Tracks.complete {s : State m} {w : Wire Op} (h : Tracks s w) {tag : Tag} {ok : Bool}
    {status : Status} (henv : Disciplined s (.complete tag ok status)) (hmem : tag ∈ s.pending) :
    ∃ w', Tracks (complete s tag ok status) w' := by
  cases h.situation with
  | idle hrest => simp [hrest.pending] at hmem
  | starting a hsus ha hstream hres hneed hawaited =>
    obtain rfl : tag = _ := by simpa [hsus.pending] using hmem
    have hstoring : s.storing = false := henv rfl
    exact h.complete_start hsus ha hstoring (by simp [hstream, hstoring]) hneed hawaited ok status
  | failed hrest => simp [hrest.pending] at hmem
  | ready c hrest => simp [hrest.pending] at hmem
  | operating a c hsus hact howes hop hoff hs hf _ =>
    obtain rfl : tag = _ := by simpa [hsus.pending] using hmem
    exact h.complete_operation hsus hact howes hop hoff hs hf ok status
  | closing a hsus ha hact hfin hw =>
    obtain rfl : tag = _ := by simpa [hsus.pending] using hmem
    exact h.complete_closing hsus ha hact hfin hw ok status
  | finishing a hsus ha hact hfin =>
    obtain rfl : tag = _ := by simpa [hsus.pending] using hmem
    exact h.complete_finish hsus ha hact hfin ok status
  | abandonedClosing hlife hawaiting hp hact hw =>
    obtain rfl : tag = _ := by simpa [hp] using hmem
    exact h.complete_abandonedClosing hlife hawaiting hp hact hw ok status
  | abandonedFinishing hlife hawaiting hp hact =>
    obtain rfl : tag = _ := by simpa [hp] using hmem
    exact h.complete_abandonedFinishing hawaiting hp hact ok status
  | finished c hrest => simp [hrest.pending] at hmem

/-- The contract followed so far, with no assignment left over from an earlier `start`. -/
def TracksInv (s : State m) : Prop := (∃ w, Tracks s w) ∧ s.stale = 0

theorem tracksInv_init : TracksInv (.init : State m) := ⟨⟨_, tracks_init⟩, rfl⟩

theorem tracks_step {s s' : State m} {w : Wire Op} {a : Action} (h : Tracks s w)
    (hstale : s.stale = 0) (henv : Disciplined s a) (hs : step s a = some s') :
    ∃ w', Tracks s' w' := by
  obtain ⟨⟨-, he⟩, rfl⟩ := stepOf_eq_some.mp hs
  cases a with
  | start nullCq => exact h.start henv he.1 he.2
  | storeStale => exact absurd hstale he
  | await op => exact h.await henv he.1 he.2.1 he.2.2.1 he.2.2.2
  | store => exact ⟨w, h.store he⟩
  | complete tag ok status => exact h.complete henv he
  | destroy => exact h.destruct he.1 he.2

theorem tracksInv_step {s s' : State m} {a : Action} (h : TracksInv s) (henv : Disciplined s a)
    (hs : step s a = some s') : TracksInv s' := by
  obtain ⟨⟨w, hw⟩, hstale⟩ := h
  refine ⟨tracks_step hw hstale henv hs, ?_⟩
  by_cases hstart : ∃ nullCq, a = .start nullCq
  · obtain ⟨nullCq, rfl⟩ := hstart
    obtain ⟨⟨-, -, hawaiting⟩, rfl⟩ := stepOf_eq_some.mp hs
    simp [next, start, awaitSuspend, hw.situation.storing hawaiting, hstale]
  · have hle := stale_step hs fun nullCq heq => hstart ⟨nullCq, heq⟩
    omega

theorem exists_tracks {s : State m} {as : List Action}
    (henv : Guarded step Disciplined (.init : State m) as)
    (hr : run step .init as = some s) : ∃ w, Tracks s w :=
  (inv_of_step tracksInv_init (fun _ _ _ => tracksInv_step) henv hr).1

/-- Until `start` has returned true the stream is not open. -/
theorem Situation.phase_unopened {s : State m} {w : Wire Op} (h : Situation s w)
    (hs : s.startResult ≠ some true) : w.phase.unopened Op.role = true := by
  cases h with
  | idle => rfl
  | starting => rfl
  | failed => rfl
  | ready _ _ _ hact => exact absurd hact.startResult hs
  | operating _ _ _ hact => exact absurd hact.startResult hs
  | closing _ _ _ hact => exact absurd hact.startResult hs
  | finishing _ _ _ hact => exact absurd hact.startResult hs
  | abandonedClosing _ _ _ hact => exact absurd hact.startResult hs
  | abandonedFinishing _ _ _ hact => exact absurd hact.startResult hs
  | finished _ _ _ hres => exact absurd hres hs

/-- The state is deleted, or `finish` has returned. -/
def Over (s : State m) : Prop :=
  s.life = .deleted ∨ s.life = .owned ∧ .finish ∈ s.awaited ∧ s.awaiting = none

theorem Situation.phase_finishing {s : State m} {w : Wire Op} (h : Situation s w)
    (hs : s.startResult = some true) (hover : Over s) :
    w.phase.finishing Op.role = true := by
  unfold Over at hover
  cases h with
  | idle _ _ hnone => simp [hs] at hnone
  | starting _ _ _ _ hnone => simp [hs] at hnone
  | failed _ _ hfalse => simp [hs] at hfalse
  | ready _ _ hlife _ howes => simp [hlife, howes.finish] at hover
  | operating _ _ hsus => simp [hsus.life, hsus.awaiting] at hover
  | closing _ hsus => simp [hsus.life, hsus.awaiting] at hover
  | finishing => rfl
  | abandonedClosing hlife => simp [hlife] at hover
  | abandonedFinishing => rfl
  | finished => rfl

/-- The teardown waits for the half-close or for Finish. -/
theorem Situation.detached {s : State m} {w : Wire Op} (h : Situation s w)
    (hlife : s.life = .detached) : s.pending = [⟨.state, 0, .writesDone⟩] ∧ s.stream = true ∨
      s.pending = [⟨.state, 1, .finish⟩] := by
  cases h with
  | idle hrest => exact absurd hlife hrest.life
  | starting _ hsus => simp [hsus.life] at hlife
  | failed hrest => exact absurd hlife hrest.life
  | ready _ hrest => exact absurd hlife hrest.life
  | operating _ _ hsus => simp [hsus.life] at hlife
  | closing _ hsus => simp [hsus.life] at hlife
  | finishing _ hsus => simp [hsus.life] at hlife
  | abandonedClosing _ _ hp hact => exact .inl ⟨hp, hact.stream⟩
  | abandonedFinishing _ _ hp => exact .inr hp
  | finished _ hrest => exact absurd hlife hrest.life

theorem step_finish_deletes {s : State m} (hfault : s.fault = none)
    (hp : s.pending = [⟨.state, 1, .finish⟩]) (ok : Bool) (status : Status) :
    ∃ s', step s (.complete ⟨.state, 1, .finish⟩ ok status) = some s' ∧ s'.life = .deleted := by
  refine ⟨_, stepOf_eq_some.mpr ⟨⟨hfault, by simp [hp]⟩, rfl⟩, ?_⟩
  rw [next, complete_state hp]
  rfl

theorem step_writesDone_finishes {s : State m} (hfault : s.fault = none)
    (hp : s.pending = [⟨.state, 0, .writesDone⟩]) (hstream : s.stream = true) (ok : Bool)
    (status : Status) : ∃ s', step s (.complete ⟨.state, 0, .writesDone⟩ ok status) = some s' ∧
      s'.fault = none ∧ s'.pending = [⟨.state, 1, .finish⟩] := by
  refine ⟨_, stepOf_eq_some.mpr ⟨⟨hfault, by simp [hp]⟩, rfl⟩, ?_⟩
  rw [next, complete_state hp, stateHandleEvent, issue_of_stream (by exact hstream)]
  exact ⟨hfault, rfl⟩

/-- The teardown's completions, whatever their outcome, end in the deletion of the state. -/
theorem Tracks.teardown_deletes {s : State m} {w : Wire Op} (h : Tracks s w)
    (hlife : s.life = .detached) (ok : Op → Bool) (status : Status) :
    ∃ (tags : List Tag) (s' : State m),
      run step s (tags.map fun tag => .complete tag (ok tag.op) status) = some s' ∧
        s'.life = .deleted := by
  rcases h.situation.detached hlife with ⟨hp, hstream⟩ | hp
  · obtain ⟨u, hu, hfault, hp'⟩ :=
      step_writesDone_finishes h.fault hp hstream (ok .writesDone) status
    obtain ⟨v, hv, hdel⟩ := step_finish_deletes hfault hp' (ok .finish) status
    refine ⟨[⟨.state, 0, .writesDone⟩, ⟨.state, 1, .finish⟩], v, ?_, hdel⟩
    simp [hu, hv]
  · obtain ⟨v, hv, hdel⟩ := step_finish_deletes h.fault hp (ok .finish) status
    refine ⟨[⟨.state, 1, .finish⟩], v, ?_, hdel⟩
    simp [hv]

/-- A streaming call used as intended, up to any point of its life and for every outcome of
every completion. No null stream is used, no stream is destroyed with an operation in flight
and nothing is used after its deletion. Only a successful `start` is followed by further
operations; then Finish is issued once and a stream the client writes to is half-closed once
before it. The completions an abandoned state waits for end in its deletion. -/
theorem streaming_call_protocol {s : State m} {as : List Action}
    (henv : Guarded step Disciplined (.init : State m) as) (hr : run step .init as = some s) :
    s.fault = none ∧
    (s.startResult ≠ some true → ∀ op, .issue op ∈ s.log → op = .start) ∧
    issued Op.role .finish s.log ≤ 1 ∧
    (s.startResult = some true → Over s → issued Op.role .finish s.log = 1) ∧
    issued Op.role .halfClose s.log ≤ m.isClientStreaming.toNat ∧
    (∀ pre post, s.log = pre ++ .issue .finish :: post →
      issued Op.role .halfClose pre = m.isClientStreaming.toNat ∧
      completed Op.role .halfClose pre = m.isClientStreaming.toNat) ∧
    (s.life = .detached → ∀ (ok : Op → Bool) status, ∃ (tags : List Tag) (s' : State m),
      run step s (tags.map fun tag => .complete tag (ok tag.op) status) = some s' ∧
        s'.life = .deleted) := by
  obtain ⟨w, h⟩ := exists_tracks henv hr
  have hlog := h.log
  have hsit := h.situation
  have hacc := accounts_run hlog
  refine ⟨h.fault, ?_, ?_, ?_, ?_, ?_, h.teardown_deletes⟩
  · intro hs op hop
    have hstart := hacc.unopened (hsit.phase_unopened hs) op hop
    cases op <;> simp [Op.role] at hstart ⊢
  · rw [hacc.finishes]
    exact Bool.toNat_le _
  · intro hs hover
    rw [hacc.finishes, hsit.phase_finishing hs hover]
    rfl
  · have hclosing := hacc.closing
    have hwriter := hacc.writer
    have honce := hacc.once
    cases hc : w.closed <;> cases hp : w.phase.closing Op.role <;> simp_all
  · intro pre post hsplit
    rw [hsplit] at hlog
    exact finish_after_halfClose hlog rfl

/-- A client-streaming call abandoned after one write. -/
def abandonedWrite : List Action :=
  [.start true, .store, .complete ⟨.awaiter, 0, .start⟩ true {}, .await .write,
    .complete ⟨.awaiter, 0, .write⟩ false {}, .destroy,
    .complete ⟨.state, 0, .writesDone⟩ false {}, .complete ⟨.state, 1, .finish⟩ true {}]

theorem abandonedWrite_protocol : ∃ s : State .clientStreaming,
    run step .init abandonedWrite = some s ∧ s.life = .deleted ∧
      issued Op.role .finish s.log = 1 := by
  have henv : Guarded step Disciplined (.init : State .clientStreaming) abandonedWrite := by
    decide
  have hr : run step (.init : State .clientStreaming) abandonedWrite = some _ := rfl
  exact ⟨_, hr, rfl, (streaming_call_protocol henv hr).2.2.2.1 rfl (.inl rfl)⟩

end AsyncppGrpc.Call
