import AsyncppGrpc.DefaultCq
import AsyncppGrpc.Library.Hosting

/-! The awaiters that wait for one event: that of `unary_call`, and `grpc_generic_method_awaiter`.
`await_suspend` runs beside the worker of the queue, which may have resumed the coroutine before
it returns. -/
namespace AsyncppGrpc.Awaiter
open Run

/-- `usesItself`: `m_function` uses its own state when it has handed the tag on. -/
inductive Kind where
  | unaryCall
  | genericMethod (usesItself : Bool)
  deriving DecidableEq

/-- The next statement of `await_suspend`; `rest` is that of `m_function`. -/
inductive Pc where
  | setHandle
  | callStub
  | post
  | rest
  | returned
  deriving DecidableEq

inductive Fault where
  | nullHandle
  | nullReader
  | useAfterFree
  deriving DecidableEq

/-- What `await_resume` returns. -/
inductive Result where
  | status (status : Status)
  | ok (ok : Bool)
  deriving DecidableEq

/-- `queued`: the tag is in flight; `alive`: the awaiter is not destroyed; `results`: what the
coroutine has been resumed with. -/
structure State where
  kind : Kind
  pc : Pc
  handle : Bool
  reader : Bool
  queued : Bool
  alive : Bool
  results : List Result
  fault : Option Fault

/-- The coroutine is suspended. -/
def State.init (kind : Kind) : State := ⟨kind, .setHandle, false, false, false, true, [], none⟩

/-- `suspend`: the next statement of `await_suspend`; `event`: the worker handles the event, with
the status Finish has stored; `destroy`: the coroutine passes the end of its `co_await`, or is
destroyed while it is suspended. -/
inductive Action where
  | suspend
  | event (ok : Bool) (status : Status)
  | destroy

def Kind.result (k : Kind) (ok : Bool) (status : Status) : Result :=
  match k with
  | .unaryCall => .status (DefaultCq.unaryStatus ok status)
  | .genericMethod _ => .ok ok

/-- A statement that uses the awaiter. -/
def access (s s' : State) : State :=
  if s.alive then s' else { s with fault := some .useAfterFree }

def suspendNext (s : State) : State :=
  match s.pc, s.kind with
  | .setHandle, .unaryCall => access s { s with handle := true, pc := .callStub }
  | .setHandle, .genericMethod _ => access s { s with handle := true, pc := .post }
  | .callStub, _ => access s { s with reader := true, pc := .post }
  | .post, .unaryCall => access s
    (if s.reader then { s with queued := true, pc := .returned }
    else { s with fault := some .nullReader })
  | .post, .genericMethod _ => access s { s with queued := true, pc := .rest }
  | .rest, .genericMethod true => access s { s with pc := .returned }
  | .rest, _ => { s with pc := .returned }
  | .returned, _ => s

def handleEvent (s : State) (ok : Bool) (status : Status) : State :=
  access s (if s.handle then { s with results := s.results ++ [s.kind.result ok status] }
    else { s with fault := some .nullHandle })

def Enabled (s : State) (a : Action) : Prop :=
  s.fault = none ∧ match a with
  | .suspend => s.pc ≠ .returned
  | .event _ _ => s.queued = true
  | .destroy => s.alive = true

instance (s : State) (a : Action) : Decidable (Enabled s a) :=
  match a with
  | .suspend => inferInstanceAs (Decidable (s.fault = none ∧ s.pc ≠ .returned))
  | .event _ _ => inferInstanceAs (Decidable (s.fault = none ∧ s.queued = true))
  | .destroy => inferInstanceAs (Decidable (s.fault = none ∧ s.alive = true))

def next (s : State) : Action → State
  | .suspend => suspendNext s
  | .event ok status => handleEvent { s with queued := false } ok status
  | .destroy => { s with alive := false }

def step : State → Action → Option State := stepOf Enabled next

/-- The tag has been handed on. -/
def posted (s : State) : Bool := s.pc = .rest || s.pc = .returned

/-- Somebody is still going to use the awaiter. -/
def needed (s : State) : Bool :=
  s.queued || !posted s || (s.pc = .rest && s.kind = .genericMethod true)

/-- The awaiter is not destroyed while it is needed. -/
def Kept (s : State) : Action → Prop
  | .destroy => needed s = false
  | _ => True

/-- The awaiter is destroyed by the coroutine that has been resumed. -/
def ResumedFirst (s : State) : Action → Prop
  | .destroy => s.results ≠ []
  | _ => True

instance (s : State) (a : Action) : Decidable (ResumedFirst s a) :=
  match a with
  | .destroy => inferInstanceAs (Decidable (s.results ≠ []))
  | .suspend | .event _ _ => instDecidableTrue

/-- What an event makes the coroutine see. -/
def outcome (k : Kind) : Action → Option Result
  | .event ok status => some (k.result ok status)
  | _ => none

structure Inv (s : State) : Prop where
  handle : s.pc ≠ .setHandle → s.handle = true
  reader : s.kind = .unaryCall → s.pc = .post → s.reader = true
  before : posted s = false → s.queued = false ∧ s.results = []
  after : posted s = true → s.fault = none →
    s.queued = true ∧ s.results = [] ∨ s.queued = false ∧ s.results.length = 1
  fault : s.fault = none ∨ s.fault = some .useAfterFree

theorem inv_init (k : Kind) : Inv (.init k) := by
  constructor <;> simp [State.init, posted]

variable {k : Kind} {s s' : State} {a : Action} {as : List Action}

theorem suspendNext_keeps (s : State) : (suspendNext s).kind = s.kind ∧
    (suspendNext s).results = s.results ∧ (suspendNext s).alive = s.alive := by
  unfold suspendNext access
  split <;> (try split) <;> (try split) <;> exact ⟨rfl, rfl, rfl⟩

/-- What `await_suspend` does to an awaiter that is there. -/
theorem suspendNext_cases (h : Inv s) (hp : s.pc ≠ .returned) (halive : s.alive = true) :
    (s.pc = .setHandle ∧ ∃ pc, (pc = .callStub ∨ pc = .post ∧ s.kind ≠ .unaryCall) ∧
      suspendNext s = { s with handle := true, pc := pc }) ∨
    (s.pc = .callStub ∧ suspendNext s = { s with reader := true, pc := .post }) ∨
    (s.pc = .post ∧ ∃ pc, (pc = .rest ∨ pc = .returned) ∧
      suspendNext s = { s with queued := true, pc := pc }) ∨
    (s.pc = .rest ∧ suspendNext s = { s with pc := .returned }) := by
  cases hpc : s.pc with
  | setHandle => cases hk : s.kind <;> simp [suspendNext, access, hpc, hk, halive]
  | callStub => cases hk : s.kind <;> simp [suspendNext, access, hpc, hk, halive]
  | post =>
    cases hk : s.kind with
    | unaryCall => simp [suspendNext, access, hpc, hk, halive, h.reader hk hpc]
    | genericMethod usesItself => simp [suspendNext, access, hpc, hk, halive]
  | rest =>
    cases hk : s.kind with
    | unaryCall => simp [suspendNext, hpc, hk]
    | genericMethod usesItself =>
      cases usesItself <;> simp [suspendNext, access, hpc, hk, halive]
  | returned => exact absurd hpc hp

theorem suspendNext_destroyed (hp : s.pc ≠ .returned) (halive : s.alive = false) :
    suspendNext s = { s with fault := some .useAfterFree } ∨
      s.pc = .rest ∧ suspendNext s = { s with pc := .returned } := by
  cases hpc : s.pc with
  | returned => exact absurd hpc hp
  | rest =>
    cases hk : s.kind with
    | unaryCall => simp [suspendNext, hpc, hk]
    | genericMethod usesItself =>
      cases usesItself <;> simp [suspendNext, access, hpc, hk, halive]
  | _ => cases hk : s.kind <;> simp [suspendNext, access, hpc, hk, halive]

/-- Using a destroyed awaiter ends the run. -/
theorem Inv.useAfterFree (h : Inv s) : Inv { s with fault := some .useAfterFree } :=
  ⟨h.handle, h.reader, h.before, fun _ hf => by simp at hf, .inr rfl⟩

/-- `m_function` returns. -/
theorem Inv.returns (h : Inv s) (hpc : s.pc = .rest) : Inv { s with pc := .returned } where
  handle _ := h.handle (by simp [hpc])
  reader _ hp := by simp at hp
  before hp := by simp [posted] at hp
  after _ hf := h.after (by simp [posted, hpc]) hf
  fault := h.fault

theorem Inv.suspend (h : Inv s) (hf : s.fault = none) (hp : s.pc ≠ .returned) :
    Inv (suspendNext s) := by
  cases halive : s.alive with
  | false =>
    rcases suspendNext_destroyed hp halive with heq | ⟨hpc, heq⟩
    · rw [heq]
      exact h.useAfterFree
    · rw [heq]
      exact h.returns hpc
  | true =>
    rcases suspendNext_cases h hp halive with ⟨hpc, pc, hnext, heq⟩ | ⟨hpc, heq⟩ |
      ⟨hpc, pc, hnext, heq⟩ | ⟨hpc, heq⟩
    · obtain ⟨hq, hres⟩ := h.before (by simp [posted, hpc])
      rw [heq]
      refine ⟨fun _ => rfl, fun hk hpost => ?_, fun _ => ⟨hq, hres⟩, fun hpost => ?_, .inl hf⟩
      · rcases hnext with rfl | ⟨rfl, hne⟩
        · simp at hpost
        · exact absurd hk hne
      · rcases hnext with rfl | ⟨rfl, -⟩ <;> simp [posted] at hpost
    · obtain ⟨hq, hres⟩ := h.before (by simp [posted, hpc])
      rw [heq]
      exact ⟨fun _ => h.handle (by simp [hpc]), fun _ _ => rfl, fun _ => ⟨hq, hres⟩,
        fun hpost => by simp [posted] at hpost, .inl hf⟩
    · obtain ⟨hq, hres⟩ := h.before (by simp [posted, hpc])
      rw [heq]
      refine ⟨fun _ => h.handle (by simp [hpc]), fun _ hpost => ?_, fun hpost => ?_,
        fun _ _ => .inl ⟨rfl, hres⟩, .inl hf⟩
      · rcases hnext with rfl | rfl <;> simp at hpost
      · rcases hnext with rfl | rfl <;> simp [posted] at hpost
    · rw [heq]
      exact h.returns hpc

theorem Inv.of_queued (h : Inv s) (hf : s.fault = none) (hq : s.queued = true) :
    posted s = true ∧ s.handle = true ∧ s.results = [] := by
  have hposted : posted s = true := by
    by_contra hno
    simp [(h.before (by simpa using hno)).1] at hq
  refine ⟨hposted, h.handle ?_, ?_⟩
  · intro hpc
    simp [posted, hpc] at hposted
  · rcases h.after hposted hf with ⟨-, hres⟩ | ⟨hno, -⟩
    · exact hres
    · simp [hno] at hq

theorem Inv.results_le (h : Inv s) (hf : s.fault = none) : s.results.length ≤ 1 := by
  cases hpost : posted s with
  | false => simp [(h.before hpost).2]
  | true =>
    rcases h.after hpost hf with ⟨-, hres⟩ | ⟨-, hres⟩
    · simp [hres]
    · exact hres.le

/-- The worker finds the handle set. -/
theorem next_event (h : Inv s) (hf : s.fault = none) (hq : s.queued = true) (ok : Bool)
    (status : Status) : next s (.event ok status) =
      if s.alive then { s with queued := false, results := [s.kind.result ok status] }
      else { s with queued := false, fault := some .useAfterFree } := by
  obtain ⟨-, hhandle, hres⟩ := h.of_queued hf hq
  simp [next, handleEvent, access, hhandle, hres]

theorem inv_step (h : Inv s) (hs : step s a = some s') : Inv s' := by
  obtain ⟨⟨hf, he⟩, rfl⟩ := stepOf_eq_some.mp hs
  cases a with
  | suspend => exact h.suspend hf he
  | event ok status =>
    have hq : s.queued = true := he
    obtain ⟨hposted, -, hres⟩ := h.of_queued hf hq
    have hpast : ∀ t : State, t.pc = s.pc → posted t = false → False := by
      intro t ht hno
      simp only [posted, ht] at hno
      exact Bool.noConfusion (hno.symm.trans hposted)
    rw [next_event h hf hq]
    split
    · exact ⟨h.handle, h.reader, fun hno => (hpast _ rfl hno).elim, fun _ _ => .inr ⟨rfl, rfl⟩,
        .inl hf⟩
    · exact ⟨h.handle, h.reader, fun hno => (hpast _ rfl hno).elim, fun _ hno => by simp at hno,
        .inr rfl⟩
  | destroy => exact ⟨h.handle, h.reader, h.before, h.after, h.fault⟩

theorem kind_step (hs : step s a = some s') : s'.kind = s.kind := by
  obtain ⟨-, rfl⟩ := stepOf_eq_some.mp hs
  cases a with
  | suspend => exact (suspendNext_keeps s).1
  | event ok status =>
    simp only [next, handleEvent, access]
    split <;> (try split) <;> rfl
  | destroy => rfl

/-- The coroutine sees what the events bring, as long as nothing is fatal. -/
theorem results_step (h : Inv s) (hs : step s a = some s') (hf' : s'.fault = none) :
    s'.results = s.results ++ (outcome s.kind a).toList := by
  obtain ⟨⟨hf, he⟩, rfl⟩ := stepOf_eq_some.mp hs
  cases a with
  | suspend =>
    simpa [next, outcome] using (suspendNext_keeps s).2.1
  | event ok status =>
    have hq : s.queued = true := he
    obtain ⟨-, -, hres⟩ := h.of_queued hf hq
    rw [next_event h hf hq] at hf' ⊢
    by_cases halive : s.alive = true
    · simp [halive, outcome, hres]
    · simp [halive] at hf'
  | destroy => simp [next, outcome]

structure Logged (k : Kind) (s : State) (as : List Action) : Prop where
  inv : Inv s
  kind : s.kind = k
  results : s.fault = none → s.results = as.filterMap (outcome k)

theorem logged_run (hr : run step (.init k) as = some s) : Logged k s as := by
  refine log_of_run ⟨inv_init k, rfl, fun _ => rfl⟩ (fun s as a s' h hs => ?_) hr
  obtain ⟨⟨hf, -⟩, -⟩ := stepOf_eq_some.mp hs
  refine ⟨inv_step h.inv hs, (kind_step hs).trans h.kind, fun hf' => ?_⟩
  rw [results_step h.inv hs hf', h.results hf, h.kind]
  cases ho : outcome k a <;> simp [ho]

/-- When nobody needs the awaiter `m_function` is left to return. -/
theorem suspendNext_of_unneeded (hp : s.pc ≠ .returned) (hno : needed s = false) :
    suspendNext s = { s with pc := .returned } := by
  cases hpc : s.pc with
  | rest =>
    cases hk : s.kind with
    | unaryCall => simp [suspendNext, hpc, hk]
    | genericMethod usesItself =>
      obtain rfl : usesItself = false := by
        simp [needed, posted, hpc, hk] at hno
        exact hno.2
      simp [suspendNext, hpc, hk]
  | returned => exact absurd hpc hp
  | _ => simp [needed, posted, hpc] at hno

/-- Nothing fatal has happened, and nobody has a destroyed awaiter still to use. -/
def Safe (s : State) : Prop := s.fault = none ∧ (s.alive = true ∨ needed s = false)

theorem safe_step (h : Inv s) (hsafe : Safe s) (hs : step s a = some s') :
    Safe s' ↔ Kept s a := by
  obtain ⟨hf, halive⟩ := hsafe
  obtain ⟨⟨-, he⟩, rfl⟩ := stepOf_eq_some.mp hs
  cases a with
  | suspend =>
    have hp : s.pc ≠ .returned := he
    refine iff_of_true ?_ trivial
    cases hl : s.alive with
    | true =>
      rcases suspendNext_cases h hp hl with ⟨-, pc, -, heq⟩ | ⟨-, heq⟩ | ⟨-, pc, -, heq⟩ | ⟨-, heq⟩
      all_goals
        rw [next, heq]
        exact ⟨hf, .inl hl⟩
    | false =>
      have hno : needed s = false := by simpa [hl] using halive
      rw [next, suspendNext_of_unneeded hp hno]
      refine ⟨hf, .inr ?_⟩
      simp_all [needed, posted]
  | event ok status =>
    have hq : s.queued = true := he
    have hl : s.alive = true := by simpa [needed, hq] using halive
    rw [next_event h hf hq, if_pos hl]
    exact iff_of_true ⟨hf, .inl hl⟩ trivial
  | destroy => simp [Safe, next, Kept, hf, needed, posted]

/-- A resumed coroutine leaves the awaiter to `m_function` at most. -/
theorem needed_of_resumed (h : Inv s) (hf : s.fault = none) (hres : s.results ≠ [])
    (hk : s.kind ≠ .genericMethod true) : needed s = false := by
  have hposted : posted s = true := by
    by_contra hno
    exact hres (h.before (by simpa using hno)).2
  rcases h.after hposted hf with ⟨-, hnil⟩ | ⟨hq, -⟩
  · exact absurd hnil hres
  · simp [needed, hq, hposted, hk]

/-- The awaiter of a co_await, with `await_suspend` and the worker interleaved in any way. It is
never used when it is gone exactly if it is destroyed when nobody needs it; that it is destroyed
after the coroutine has been resumed is enough, but for an `m_function` that uses itself when it
has handed the tag on. The handle and the reader are there when they are used, and the coroutine
is resumed at most once, with the outcome of the event. -/
theorem awaiter_safe_iff (k : Kind) (as : List Action) :
    (Always step Safe (.init k) as ↔ Guarded step Kept (.init k) as) ∧
    (k ≠ .genericMethod true →
      Guarded step ResumedFirst (.init k) as → Always step Safe (.init k) as) ∧
    ∀ s, run step (.init k) as = some s →
      (s.fault = none ∨ s.fault = some .useAfterFree) ∧
      (s.fault = none → s.results = as.filterMap (outcome k) ∧ s.results.length ≤ 1 ∧
        (posted s = true → s.queued = false → s.results.length = 1)) := by
  have hiff : Always step Safe (.init k) as ↔ Guarded step Kept (.init k) as :=
    always_iff_guarded_of_inv (inv_init k) ⟨rfl, .inl rfl⟩ (fun _ _ _ => inv_step)
      (fun _ _ _ => safe_step) as
  refine ⟨hiff, fun hk hresumed => hiff.mpr ?_, fun s hr => ?_⟩
  · have hlogged : Always step (fun s => Inv s ∧ s.kind = k) (.init k) as :=
      always_of_run (fun bs t hbs => ⟨(logged_run hbs).inv, (logged_run hbs).kind⟩) as
    refine (hresumed.and hlogged.guarded).imp fun s a s' hok hs => ?_
    obtain ⟨⟨hf, -⟩, -⟩ := stepOf_eq_some.mp hs
    cases a with
    | destroy => exact needed_of_resumed hok.2.1 hf hok.1 (hok.2.2 ▸ hk)
    | _ => trivial
  · have h := logged_run hr
    refine ⟨h.inv.fault, fun hf => ⟨h.results hf, h.inv.results_le hf, fun hpost hq => ?_⟩⟩
    rcases h.inv.after hpost hf with ⟨hno, -⟩ | ⟨-, hres⟩
    · simp [hq] at hno
    · exact hres

/-- The coroutine goes on before `m_function` has returned. -/
def resumedEarly : List Action := [.suspend, .suspend, .event true {}, .destroy, .suspend]

theorem resumedEarly_safe : Always step Safe (.init (.genericMethod false)) resumedEarly ∧
    ∃ s, run step (.init (.genericMethod false)) resumedEarly = some s ∧
      s.results = [.ok true] := by
  have hresumed : Guarded step ResumedFirst (.init (.genericMethod false)) resumedEarly := by
    decide
  have hr : run step (.init (.genericMethod false)) resumedEarly = some _ := rfl
  obtain ⟨-, hsafe, hrun⟩ := awaiter_safe_iff (.genericMethod false) resumedEarly
  exact ⟨hsafe (by decide) hresumed, _, hr, ((hrun _ hr).2 rfl).1⟩

/-- No event of the awaiter is outstanding. -/
def drained (s : State) : Bool := s.fault.isNone && !s.queued

def Resumed (s : State) : Prop := s.results ≠ []

theorem resumed_iff_posted (h : Inv s) (hd : drained s = true) :
    Resumed s ↔ posted s = true := by
  obtain ⟨hf, hq⟩ : s.fault = none ∧ s.queued = false := by simpa [drained] using hd
  constructor
  · intro hres
    by_contra hno
    exact hres (h.before (by simpa using hno)).2
  · intro hpost hnil
    rcases h.after hpost hf with ⟨hno, -⟩ | ⟨-, hone⟩
    · simp [hq] at hno
    · simp [hnil] at hone

theorem resumed_step (h : Inv s) (hres : Resumed s) (hs : step s a = some s') : Resumed s' := by
  obtain ⟨⟨hf, he⟩, rfl⟩ := stepOf_eq_some.mp hs
  cases a with
  | suspend =>
    unfold Resumed
    rw [next, (suspendNext_keeps s).2.1]
    exact hres
  | event ok status => exact absurd (h.of_queued hf he).2.2 hres
  | destroy => exact hres

/-- Any number of co_awaits on any number of queues. In every state of a run the coroutines that
wait on a queue whose worker is gone have all been resumed, exactly if no worker goes while one of
its awaiters is still to hand its tag on; and each coroutine is resumed at most once, with what
the events of its own awaiter bring. -/
theorem awaits_resumed_iff {κ : Type*} [DecidableEq κ] (bs : List (Hosting.Action κ Kind Action)) :
    (Always (Hosting.hostStep State.init step drained) (Hosting.Settled Resumed) .init bs ↔
      Guarded (Hosting.hostStep State.init step drained)
        (Hosting.Orderly (fun s => posted s = true) fun _ _ => True) .init bs) ∧
    ∀ s, run (Hosting.hostStep State.init step drained) .init bs = some s →
      ∀ (i : Nat) (q : κ × State), s.parties[i]? = some q → q.2.fault = none →
        q.2.results = (bs.filterMap (Hosting.actOn i)).filterMap (outcome q.2.kind) ∧
        q.2.results.length ≤ 1 := by
  refine ⟨?_, fun s hr i q hq hf => ?_⟩
  · apply Hosting.settled_iff inv_init (fun _ _ _ => inv_step)
    · exact fun _ => resumed_iff_posted
    · exact fun _ _ _ h hres hs => iff_true_intro (resumed_step h hres hs)
  · obtain ⟨k, hk⟩ := (Hosting.ran_of_run hr).machine i q hq
    have hlogged := logged_run hk
    rw [hlogged.kind]
    exact ⟨hlogged.results hf, hlogged.inv.results_le hf⟩

/-- A unary call fails, and a generic method succeeds, on one queue. -/
def awaitTwo : List (Hosting.Action Unit Kind Action) :=
  [.create () .unaryCall, .act 0 .suspend, .create () (.genericMethod true), .act 1 .suspend,
    .act 0 .suspend, .act 1 .suspend, .act 0 .suspend, .act 0 (.event false {}),
    .act 1 (.event true {}), .act 1 .suspend, .leave ()]

theorem awaitTwo_resumed : ∃ s q, run (Hosting.hostStep State.init step drained) .init awaitTwo =
    some s ∧ s.parties[0]? = some q ∧
      q.2.results = [.status { code := .unknown, message := "Event returned ok=false" }] := by
  have hr : run (Hosting.hostStep State.init step drained) .init awaitTwo = some _ := rfl
  exact ⟨_, _, hr, rfl, ((awaits_resumed_iff awaitTwo).2 _ hr 0 _ rfl rfl).1⟩

end AsyncppGrpc.Awaiter
