import AsyncppGrpc.Call
import AsyncppGrpc.ClientCq
import AsyncppGrpc.Library.SharedPtr

/-! The queue of `client_cq::get_default`, shared by the static instance, the awaiters of
unary calls (of type `A`) and the states of streaming calls (of type `O`). Whoever drops the
last `shared_ptr` runs `~client_cq`, which joins the queue's worker. -/
namespace AsyncppGrpc.DefaultCq
open Run
open ClientCq (Thread)

/-- The awaiter of a `unary_call` without a queue of its own. -/
inductive Unary where
  | absent
  | suspended
  | resumed (status : Status)
  | destroyed
  deriving DecidableEq

/-- The awaiter has its `m_default_client_cq`. -/
def Unary.holds : Unary → Bool
  | .suspended | .resumed _ => true
  | _ => false

def Unary.isResumed : Unary → Bool
  | .resumed _ => true
  | _ => false

/-- `static`: the function-local `instance` is not destroyed yet; `destroyedBy`: the thread
`~client_cq` has run on. -/
structure State (A O T : Type*) (m : O → RpcMethodType) where
  static : Bool
  useCount : Nat
  destroyedBy : Option (Thread T)
  unary : A → Unary
  call : (o : O) → Call.State (m o)

inductive Action (A O T : Type*) where
  | unary (a : A)
  | unaryEvent (a : A) (ok : Bool) (status : Status)
  | unaryEnd (a : A)
  | call (t : Thread T) (o : O) (act : Call.Action)
  | exit (t : T)

variable {A O T : Type*} {m : O → RpcMethodType}

/-- After the first `get_default`. -/
def State.init : State A O T m where
  static := true
  useCount := 1
  destroyedBy := none
  unary := fun _ => .absent
  call := fun _ => .init

/-- A `shared_ptr` to the queue is destroyed on `t`. -/
def drop (s : State A O T m) (t : Thread T) : State A O T m :=
  { s with
    useCount := s.useCount - 1
    destroyedBy := if s.useCount = 1 then some t else s.destroyedBy }

/-- `handle_event` of the unary awaiter; Finish has stored `status`. -/
def unaryStatus (ok : Bool) (status : Status) : Status :=
  if ok then status else { code := .unknown, message := "Event returned ok=false" }

/-- Events are delivered by the worker, which runs the coroutine they resume to the end of
its `co_await`; `get_default` needs the static instance. -/
def Enabled (s : State A O T m) (a : Action A O T) : Prop :=
  s.destroyedBy ≠ some .worker ∧ match a with
  | .unary a => s.unary a = .absent ∧ s.static
  | .unaryEvent a _ _ => s.unary a = .suspended
  | .unaryEnd a => (s.unary a).isResumed
  | .call t o act => Call.Enabled (s.call o) act ∧ match act with
    | .complete _ _ _ => t = .worker
    | .start nullCq => nullCq → s.static
    | _ => True
  | .exit _ => s.static

instance [DecidableEq T] (s : State A O T m) (a : Action A O T) : Decidable (Enabled s a) :=
  have and_dec (p : Prop) [Decidable p] : Decidable (s.destroyedBy ≠ some .worker ∧ p) :=
    instDecidableAnd
  match a with
  | .unary a => and_dec (s.unary a = .absent ∧ s.static = true)
  | .unaryEvent a _ _ => and_dec (s.unary a = .suspended)
  | .unaryEnd a => and_dec ((s.unary a).isResumed = true)
  | .call t o (.complete tag ok status) =>
    and_dec (Call.Enabled (s.call o) (.complete tag ok status) ∧ t = .worker)
  | .call _ o (.start nullCq) =>
    and_dec (Call.Enabled (s.call o) (.start nullCq) ∧ (nullCq → s.static = true))
  | .call _ o (.await op) => and_dec (Call.Enabled (s.call o) (.await op) ∧ True)
  | .call _ o .store => and_dec (Call.Enabled (s.call o) .store ∧ True)
  | .call _ o .storeStale => and_dec (Call.Enabled (s.call o) .storeStale ∧ True)
  | .call _ o .destroy => and_dec (Call.Enabled (s.call o) .destroy ∧ True)
  | .exit _ => and_dec (s.static = true)

/-- Nobody but the static instance has a reference. -/
def Unheld (s : State A O T m) : Prop :=
  (∀ a, (s.unary a).holds = false) ∧ ∀ o, (s.call o).defaultClientCq = false

/-- A call without a stream is destroyed by a coroutine on the worker, so that every reference
but the static one is dropped there. -/
def ReleasedOnWorker (s : State A O T m) : Action A O T → Prop
  | .call t o .destroy => (s.call o).stream = false → t = .worker
  | _ => True

/-- The static instance is destroyed when nobody else has a reference. -/
def StaticLast (s : State A O T m) : Action A O T → Prop
  | .exit _ => Unheld s
  | _ => True

instance [DecidableEq T] (s : State A O T m) (a : Action A O T) :
    Decidable (ReleasedOnWorker s a) :=
  match a with
  | .call t o .destroy =>
    inferInstanceAs (Decidable ((s.call o).stream = false → t = .worker))
  | .unary _ | .unaryEvent _ _ _ | .unaryEnd _ | .call _ _ (.start _) | .call _ _ (.await _)
  | .call _ _ .store | .call _ _ .storeStale | .call _ _ (.complete _ _ _) | .exit _ =>
    instDecidableTrue

instance [Fintype A] [Fintype O] (s : State A O T m) (a : Action A O T) :
    Decidable (StaticLast s a) :=
  match a with
  | .exit _ => inferInstanceAs (Decidable
    ((∀ a, (s.unary a).holds = false) ∧ ∀ o, (s.call o).defaultClientCq = false))
  | .unary _ | .unaryEvent _ _ _ | .unaryEnd _ | .call _ _ _ => instDecidableTrue

/-- The owners of the queue as owners of a reference counted object. -/
def view (s : State A O T m) : SharedPtr.State (Thread T) (A ⊕ O) where
  root := s.static
  holds := Sum.elim (fun a => (s.unary a).holds) fun o => (s.call o).defaultClientCq
  useCount := s.useCount
  destroyedBy := s.destroyedBy

def label (s : State A O T m) : Action A O T → Option (SharedPtr.Action (Thread T) (A ⊕ O))
  | .unary a => some (.acquire (.inl a))
  | .unaryEvent _ _ _ => none
  | .unaryEnd a => some (.release .worker (.inl a))
  | .call t o act =>
    match (s.call o).defaultClientCq, (Call.next (s.call o) act).defaultClientCq with
    | false, true => some (.acquire (.inr o))
    | true, false => some (.release t (.inr o))
    | _, _ => none
  | .exit t => some (.releaseRoot (.external t))

theorem rootLast_label (s : State A O T m) (a : Action A O T) :
    (∀ b ∈ label s a, SharedPtr.RootLast (view s) b) ↔ StaticLast s a := by
  cases a with
  | exit t => simp [label, SharedPtr.RootLast, StaticLast, view, Unheld]
  | call t o act =>
    refine iff_of_true (fun b hb => ?_) trivial
    cases hbef : (s.call o).defaultClientCq <;>
      cases haft : (Call.next (s.call o) act).defaultClientCq <;>
      simp [label, hbef, haft] at hb <;> subst b <;> trivial
  | _ => exact iff_of_true (by simp [label, SharedPtr.RootLast]) trivial

variable [DecidableEq A] [DecidableEq O]

/-- The step of one call, and what it does to its reference. -/
def callNext (s : State A O T m) (t : Thread T) (o : O) (c : Call.State (m o)) : State A O T m :=
  let s' : State A O T m := { s with call := Function.update s.call o c }
  match (s.call o).defaultClientCq, c.defaultClientCq with
  | false, true => { s' with useCount := s.useCount + 1 }
  | true, false => drop s' t
  | _, _ => s'

def next (s : State A O T m) : Action A O T → State A O T m
  | .unary a => { s with
      unary := Function.update s.unary a .suspended
      useCount := s.useCount + 1 }
  | .unaryEvent a ok status => { s with
      unary := Function.update s.unary a (.resumed (unaryStatus ok status)) }
  | .unaryEnd a => drop { s with unary := Function.update s.unary a .destroyed } .worker
  | .call t o act => callNext s t o (Call.next (s.call o) act)
  | .exit t => drop { s with static := false } (.external t)

def step [DecidableEq T] : State A O T m → Action A O T → Option (State A O T m) :=
  stepOf Enabled next

theorem view_unary (s : State A O T m) (a : A) (u : Unary) :
    (view { s with unary := Function.update s.unary a u }).holds =
      Function.update (view s).holds (.inl a) u.holds := by
  funext p
  cases p with
  | inl b => by_cases hb : b = a <;> simp [view, hb]
  | inr o => simp [view]

theorem view_call (s : State A O T m) (o : O) (c : Call.State (m o)) :
    (view { s with call := Function.update s.call o c }).holds =
      Function.update (view s).holds (.inr o) c.defaultClientCq := by
  funext p
  cases p with
  | inl b => simp [view]
  | inr q =>
    by_cases hq : q = o
    · subst q
      simp [view]
    · simp [view, hq]

theorem views_call (s : State A O T m) (t : Thread T) (o : O) (act : Call.Action)
    (hstatic : act = .start true → s.static = true) :
    Becomes SharedPtr.step (view s) (view (next s (.call t o act))) (label s (.call t o act)) := by
  have hholds := view_call s o (Call.next (s.call o) act)
  cases hb : (s.call o).defaultClientCq with
  | false =>
    cases ha : (Call.next (s.call o) act).defaultClientCq with
    | false =>
      simp only [label, next, callNext, hb, ha]
      refine SharedPtr.State.ext rfl (hholds.trans ?_) rfl rfl
      exact Function.update_eq_self_iff.mpr (ha.trans hb.symm)
    | true =>
      simp only [label, next, callNext, hb, ha]
      refine stepOf_eq_some.mpr ⟨⟨hstatic (Call.start_of_acquires hb ha), hb⟩, ?_⟩
      exact SharedPtr.State.ext rfl (hholds.trans (by rw [ha]; rfl)) rfl rfl
  | true =>
    cases ha : (Call.next (s.call o) act).defaultClientCq with
    | false =>
      simp only [label, next, callNext, hb, ha]
      refine stepOf_eq_some.mpr ⟨hb, ?_⟩
      exact SharedPtr.State.ext rfl (hholds.trans (by rw [ha]; rfl)) rfl rfl
    | true =>
      simp only [label, next, callNext, hb, ha]
      refine SharedPtr.State.ext rfl (hholds.trans ?_) rfl rfl
      exact Function.update_eq_self_iff.mpr (ha.trans hb.symm)

variable [DecidableEq T]

/-- Every step of the queue's owners is one of the reference counted object, or none. -/
theorem views_step : Views step SharedPtr.step (view (A := A) (T := T) (m := m)) label := by
  intro s a s' hs
  obtain ⟨⟨-, he⟩, rfl⟩ := stepOf_eq_some.mp hs
  cases a with
  | unary a =>
    have hholds := view_unary s a .suspended
    refine stepOf_eq_some.mpr ⟨⟨he.2, by simp [view, he.1, Unary.holds]⟩, ?_⟩
    exact SharedPtr.State.ext rfl hholds rfl rfl
  | unaryEvent a ok status =>
    have hsus : s.unary a = .suspended := he
    refine SharedPtr.State.ext rfl ((view_unary s a _).trans ?_) rfl rfl
    exact Function.update_eq_self_iff.mpr (by simp [view, hsus, Unary.holds])
  | unaryEnd a =>
    have hres : (s.unary a).holds = true := by
      cases hu : s.unary a <;> simp_all [Unary.isResumed, Unary.holds]
    have hholds := view_unary s a .destroyed
    refine stepOf_eq_some.mpr ⟨hres, ?_⟩
    exact SharedPtr.State.ext rfl hholds rfl rfl
  | call t o act =>
    refine views_call s t o act fun ha => ?_
    subst act
    exact he.2 rfl
  | exit t => exact stepOf_eq_some.mpr ⟨he, rfl⟩

/-- Steps that drop a reference drop it on the worker, the static instance apart. -/
theorem releasedBy_label {s s' : State A O T m} {a : Action A O T}
    (henv : ReleasedOnWorker s a) (hs : step s a = some s') :
    ∀ b ∈ label s a, SharedPtr.ReleasedBy .worker (view s) b := by
  obtain ⟨⟨-, he⟩, rfl⟩ := stepOf_eq_some.mp hs
  intro b hb
  cases a with
  | unary a =>
    obtain rfl : _ = b := by simpa [label] using hb
    trivial
  | unaryEvent a ok status => simp [label] at hb
  | unaryEnd a =>
    obtain rfl : _ = b := by simpa [label] using hb
    rfl
  | call t o act =>
    cases hbef : (s.call o).defaultClientCq with
    | false =>
      cases haft : (Call.next (s.call o) act).defaultClientCq with
      | false => simp [label, hbef, haft] at hb
      | true =>
        obtain rfl : _ = b := by simpa [label, hbef, haft] using hb
        trivial
    | true =>
      cases haft : (Call.next (s.call o) act).defaultClientCq with
      | true => simp [label, hbef, haft] at hb
      | false =>
        obtain rfl : _ = b := by simpa [label, hbef, haft] using hb
        rcases Call.releases_cases hbef haft with ⟨tag, ok, status, rfl⟩ | ⟨rfl, hstream⟩
        · exact he.2
        · exact henv hstream
  | exit t =>
    obtain rfl : _ = b := by simpa [label] using hb
    simp [SharedPtr.ReleasedBy]

/-- In a run in which everything that has a reference gives it back in the end, the last
`shared_ptr` is not dropped on the worker exactly if the static instance goes last. -/
theorem not_destroyed_by_worker_iff [Fintype A] [Fintype O] {as : List (Action A O T)}
    {s : State A O T m} (henv : Guarded step ReleasedOnWorker (.init : State A O T m) as)
    (hr : run step .init as = some s) (hdone : s.static = false → Unheld s) :
    Always step (fun s => s.destroyedBy ≠ some .worker) (.init : State A O T m) as ↔
      Guarded step StaticLast (.init : State A O T m) as := by
  have hview : view (.init : State A O T m) = .init :=
    SharedPtr.State.ext rfl (by funext p; cases p <;> rfl) rfl rfl
  have hrun := run_labels views_step hr
  rw [hview] at hrun
  have hby : Guarded SharedPtr.step (SharedPtr.ReleasedBy .worker) .init
      (labels step label (.init : State A O T m) as) := by
    rw [← hview, guarded_labels views_step]
    exact henv.imp fun s a s' => releasedBy_label
  have hzero : s.static = false → s.useCount = 0 := by
    intro hs
    have hcount := (inv_of_run SharedPtr.counted_init (fun _ _ _ => SharedPtr.counted_step)
      hrun).count
    obtain ⟨hu, hc⟩ := hdone hs
    simpa [view, hs, hu, hc] using hcount
  have hiff := SharedPtr.not_destroyedBy_iff hby hrun hzero
  rw [← hview, always_labels views_step, guarded_labels views_step] at hiff
  simp only [rootLast_label] at hiff
  exact hiff

/-- A unary call whose awaiter is resumed after the static instance is destroyed. -/
def exitFirst : List (Action Unit Empty Unit) :=
  [.unary (), .exit (), .unaryEvent () true {}, .unaryEnd ()]

theorem exitFirst_self_join :
    Guarded step ReleasedOnWorker (.init : State Unit Empty Unit fun _ => .unary) exitFirst ∧
    ∃ s, run step (.init : State Unit Empty Unit fun _ => .unary) exitFirst = some s ∧
      Unheld s ∧ s.destroyedBy = some .worker := by
  refine ⟨?_, _, rfl, ⟨fun _ => rfl, fun o => o.elim⟩, rfl⟩
  decide

/-- A unary call and an abandoned client-streaming call, both gone before the static
instance. -/
def exitLast : List (Action Unit Unit Unit) :=
  [.unary (), .call (.external ()) () (.start true), .call (.external ()) () .store,
    .call .worker () (.complete ⟨.awaiter, 0, .start⟩ true {}),
    .call (.external ()) () .destroy, .unaryEvent () true {},
    .call .worker () (.complete ⟨.state, 0, .writesDone⟩ false {}), .unaryEnd (),
    .call .worker () (.complete ⟨.state, 1, .finish⟩ true {}), .exit ()]

theorem exitLast_no_self_join :
    ∃ s, run step (.init : State Unit Unit Unit fun _ => .clientStreaming) exitLast = some s ∧
      s.static = false ∧ s.destroyedBy ≠ some .worker := by
  have henv : Guarded step ReleasedOnWorker
      (.init : State Unit Unit Unit fun _ => .clientStreaming) exitLast := by decide
  have hlast : Guarded step StaticLast
      (.init : State Unit Unit Unit fun _ => .clientStreaming) exitLast := by decide
  have hr : run step (.init : State Unit Unit Unit fun _ => .clientStreaming) exitLast =
      some _ := rfl
  exact ⟨_, hr, rfl, ((not_destroyed_by_worker_iff henv hr fun _ =>
    ⟨fun _ => rfl, fun _ => rfl⟩).mpr hlast).last hr⟩

end AsyncppGrpc.DefaultCq
