import AsyncppGrpc.ServerStartup
import AsyncppGrpc.Library.Arrival

/-! Every initializer runs once on every queue. Coming online is an arrival at a counter, and
the last arrival clears the list that nobody iterates any more. -/
namespace AsyncppGrpc
open Run
variable {I F T : Type*} {n : Nat}

namespace Server

variable [DecidableEq T]

/-- A worker that is in start-up or past its loop moves by coming online only. -/
theorem next_worker {s : State F n T} {a : Action F n T} (he : Enabled s a) {w : Fin n}
    (ha : a ≠ .online w) (hw : s.worker w = .starting ∨ s.worker w = .exited) :
    (next s a).worker w = s.worker w := by
  obtain ⟨-, he⟩ := he
  have hother : ∀ v, s.worker v = .next ∨ s.worker v = .event ∨ (s.worker v).inHandleEvent →
      w ≠ v := by
    intro v hv heq
    subst v
    rcases hw with hw | hw <;> simp [hw, WorkerPc.inHandleEvent] at hv
  cases a with
  | beginPush t fn k => rfl
  | push t => simp [next]
  | stop => simp [next]
  | online v =>
    have hvw : w ≠ v := by
      intro heq
      exact ha (by rw [heq])
    simp [next, hvw]
  | nextEvent v => simp [next, hother v (.inl he)]
  | endEvent v => simp [next, hother v (.inr (.inl he.1))]
  | handleEvent v => simp [next, handleEventNext_worker_of_ne s (hother v (.inr (.inr he.1)))]
  | nextAlarm v => simp [next, hother v (.inl he.1)]
  | exit v => simp [next, hother v (.inl he.1)]

variable [DecidableEq F]

/-- The queues outlive the start-up of every worker. -/
theorem cqs_of_starting {s : State F n T} {as : List (Action F n T)}
    (hr : run step .init as = some s) {w : Fin n} (hw : s.worker w = .starting) : s.cqs = n := by
  have h := attended_run hr
  refine h.cqs fun hs => ?_
  have hex := h.joined w (by simp [hs, Joined])
  simp [hw] at hex

end Server

namespace ServerStartup

/-- The statements of the start-up as those of an arriving party. -/
def WorkerPc.arrival : WorkerPc → Arrival.Pc
  | .compare old => .decide old
  | .clear => .act
  | .online => .after
  | _ => .before

def asArrivals (s : State I F n T) : Arrival.State (Fin n) :=
  ⟨s.threadsOnline, WorkerPc.arrival ∘ s.worker, s.came, s.clears⟩

/-- The worker has executed its `fetch_add`. -/
def WorkerPc.cameOnline (p : WorkerPc) : Prop := p.arrival ≠ .before

instance (p : WorkerPc) : Decidable p.cameOnline :=
  inferInstanceAs (Decidable (p.arrival ≠ .before))

/-- The initializers a worker has invoked out of `len`. -/
def WorkerPc.begun (len : Nat) : WorkerPc → Nat
  | .notLaunched | .start => 0
  | .iterate it _ => it
  | .call it _ => it + 1
  | _ => len

theorem begun_of_cameOnline {p : WorkerPc} (h : p.cameOnline) (len : Nat) :
    p.begun len = len := by
  cases p <;> simp_all [WorkerPc.cameOnline, WorkerPc.arrival, WorkerPc.begun]

/-- The iterators stay inside the list. -/
def WorkerPc.InRange (len : Nat) : WorkerPc → Prop
  | .iterate it last => last = len ∧ it ≤ len
  | .call it last => last = len ∧ it < len
  | _ => True

/-- The initializers invoked with queue `q`, in order. -/
def callsOn (s : State I F n T) (q : Nat) : List I :=
  (s.calls.filter fun c => c.2 = q).map Prod.fst

variable [DecidableEq F] [DecidableEq T]

structure Inv (cqinits : List I) (s : State I F n T) : Prop where
  server : ∃ as, run Server.step .init as = some s.server
  starting : ∀ w, s.worker w ≠ .online → s.server.worker w = .starting
  launched : ∀ w : Fin n, s.launched ≤ w.val → s.worker w = .notLaunched
  fault : s.fault = none
  arrived : Arrival.Inv (asArrivals s)
  list : s.cqInitializers = if s.clears = [] then cqinits else []
  inRange : ∀ w, (s.worker w).InRange cqinits.length
  calls : ∀ w : Fin n, callsOn s w = cqinits.take ((s.worker w).begun cqinits.length)
  queues : ∀ c ∈ s.calls, c.2 < n

theorem inv_init (cqinits : List I) : Inv cqinits (.init cqinits : State I F n T) where
  server := ⟨[], rfl⟩
  starting _ _ := rfl
  launched _ _ := rfl
  fault := rfl
  arrived := Arrival.inv_init
  list := rfl
  inRange _ := trivial
  calls _ := rfl
  queues := by simp [State.init]

section
variable {cqinits : List I} {s : State I F n T}

/-- While a worker is not online the list is there. -/
theorem Inv.list_of_before (h : Inv cqinits s) {w : Fin n}
    (hw : (s.worker w).arrival = .before) : s.cqInitializers = cqinits := by
  have hnil : s.clears = [] := by
    by_contra hne
    exact h.arrived.all_arrived (.inr hne) w hw
  simp [h.list, hnil]

theorem Inv.cqs (h : Inv cqinits s) {w : Fin n} (hw : s.worker w ≠ .online) :
    s.server.cqs = n := by
  obtain ⟨as, hr⟩ := h.server
  exact Server.cqs_of_starting hr (h.starting w hw)

/-- The step of a worker that is not online puts nobody else into the server's loop. -/
theorem Inv.starting_update (h : Inv cqinits s) {w : Fin n} (hw : s.worker w ≠ .online)
    {p : WorkerPc} {v : Fin n} (hv : Function.update s.worker w p v ≠ .online) :
    s.server.worker v = .starting := by
  by_cases hvw : v = w
  · subst v
    exact h.starting w hw
  · exact h.starting v (by simpa [hvw] using hv)

/-- Worker `w` moves on before its `fetch_add`. -/
theorem Inv.move (h : Inv cqinits s) {w : Fin n} {p : WorkerPc} (hl : w.val < s.launched)
    (hw : (s.worker w).arrival = .before) (hp : p.arrival = .before)
    (hr : p.InRange cqinits.length)
    (hb : p.begun cqinits.length = (s.worker w).begun cqinits.length) :
    Inv cqinits { s with worker := Function.update s.worker w p } :=
  { h with
    starting := by
      have hne : s.worker w ≠ .online := by
        intro ho
        simp [ho, WorkerPc.arrival] at hw
      exact fun v hv => h.starting_update hne hv
    launched := by
      intro v hv
      have hle : s.launched ≤ v.val := hv
      have hvw : v ≠ w := by
        intro heq
        subst v
        omega
      simpa [hvw] using h.launched v hv
    arrived := by
      have hview : asArrivals { s with worker := Function.update s.worker w p } =
          asArrivals s := by
        simp only [asArrivals]
        rw [Update.view_update (hp.trans hw.symm)]
      rw [hview]
      exact h.arrived
    inRange := by
      intro v
      by_cases hvw : v = w
      · subst v
        simpa using hr
      · simpa [hvw] using h.inRange v
    calls := by
      intro v
      by_cases hvw : v = w
      · subst v
        simpa [callsOn, hb] using h.calls w
      · simpa [callsOn, hvw] using h.calls v }

omit [DecidableEq F] [DecidableEq T] in
theorem callsOn_callInitializer (s : State I F n T) (w v : Fin n) (e : I) :
    callsOn (callInitializer s w e) v = callsOn s v ++ if v = w then [e] else [] := by
  by_cases hvw : v = w
  · simp [callsOn, callInitializer, hvw]
  · have hne : w.val ≠ v.val := fun heq => hvw (Fin.ext heq.symm)
    simp [callsOn, callInitializer, hvw, hne]

/-- Worker `w` invokes the initializer its iterator is at. -/
theorem Inv.invoke (h : Inv cqinits s) {w : Fin n} {it last : Nat}
    (hw : s.worker w = .iterate it last) (hlt : it < cqinits.length) :
    Inv cqinits (callInitializer { s with worker := Function.update s.worker w (.call it last) } w
      cqinits[it]) := by
  have hrange : last = cqinits.length ∧ it ≤ cqinits.length := by
    simpa [hw, WorkerPc.InRange] using h.inRange w
  have hcalls : callsOn s w = cqinits.take it := by simpa [hw, WorkerPc.begun] using h.calls w
  constructor
  · exact h.server
  · exact fun v hv => h.starting_update (by simp [hw]) hv
  · intro v hv
    have hold := h.launched v hv
    have hvw : v ≠ w := by
      intro heq
      simp [heq, hw] at hold
    simpa [callInitializer, hvw] using hold
  · exact h.fault
  · have hview : asArrivals (callInitializer
        { s with worker := Function.update s.worker w (.call it last) } w cqinits[it]) =
          asArrivals s := by
      simp only [asArrivals, callInitializer]
      rw [Update.view_update (by simp [hw, WorkerPc.arrival])]
    rw [hview]
    exact h.arrived
  · exact h.list
  · intro v
    by_cases hvw : v = w
    · simpa [callInitializer, hvw, WorkerPc.InRange] using ⟨hrange.1, hlt⟩
    · simpa [callInitializer, hvw] using h.inRange v
  · intro v
    rw [callsOn_callInitializer]
    by_cases hvw : v = w
    · subst v
      have hpc : (callInitializer
          { s with worker := Function.update s.worker w (.call it last) } w cqinits[it]).worker w =
            .call it last := by
        simp [callInitializer]
      rw [hpc, WorkerPc.begun, List.take_add_one, List.getElem?_eq_getElem hlt, ← hcalls]
      simp [callsOn]
    · simpa [callInitializer, callsOn, hvw] using h.calls v
  · intro c hc
    rcases List.mem_append.mp hc with hc | hc
    · exact h.queues c hc
    · obtain rfl : c = (cqinits[it], w.val) := by simpa using hc
      exact w.isLt

/-- A statement of worker `w` after its iteration is an action of the arriving party. -/
theorem Inv.arrive (h : Inv cqinits s) {s' : State I F n T} {w : Fin n}
    {a : Arrival.Action (Fin n)} (hserver : ∃ as, run Server.step .init as = some s'.server)
    (hw : s.worker w = .fetchAdd ∨ (s.worker w).cameOnline)
    (hstart : ∀ v, s'.worker v ≠ .online → s'.server.worker v = .starting)
    (hpc : ∀ v, v ≠ w → s'.worker v = s.worker v) (hcame : (s'.worker w).cameOnline)
    (ha : Arrival.Enabled (asArrivals s) a) (heq : asArrivals s' = Arrival.next (asArrivals s) a)
    (hlist : s'.cqInitializers = if s'.clears = [] then cqinits else [])
    (hf : s'.fault = s.fault) (hcalls : s'.calls = s.calls) (hl : s'.launched = s.launched) :
    Inv cqinits s' := by
  have hfull : ∀ p : WorkerPc, p = .fetchAdd ∨ p.cameOnline →
      p.InRange cqinits.length ∧ p.begun cqinits.length = cqinits.length := by
    intro p hp
    cases p <;> simp_all [WorkerPc.cameOnline, WorkerPc.arrival, WorkerPc.InRange, WorkerPc.begun]
  constructor
  · exact hserver
  · exact hstart
  · intro v hv
    have hold := h.launched v (hl ▸ hv)
    have hvw : v ≠ w := by
      intro he
      simp [← he, hold, WorkerPc.cameOnline, WorkerPc.arrival] at hw
    rw [hpc v hvw, hold]
  · exact hf.trans h.fault
  · rw [heq]
    exact Arrival.inv_next h.arrived ha
  · exact hlist
  · intro v
    by_cases hvw : v = w
    · subst v
      exact (hfull _ (.inr hcame)).1
    · rw [hpc v hvw]
      exact h.inRange v
  · intro v
    rw [callsOn, hcalls]
    by_cases hvw : v = w
    · subst v
      rw [(hfull _ (.inr hcame)).2, ← (hfull _ hw).2]
      exact h.calls w
    · rw [hpc v hvw]
      exact h.calls v
  · rw [hcalls]
    exact h.queues

/-- A step of the dispatcher leaves the start-up alone. -/
theorem Inv.dispatch (h : Inv cqinits s) {a : Server.Action F n T} (ha : Allowed s a)
    (he : Server.Enabled s.server a) :
    Inv cqinits { s with server := Server.next s.server a } := by
  obtain ⟨as, hr⟩ := h.server
  refine { h with server := ⟨as ++ [a], run_concat.mpr ⟨_, hr, he, rfl⟩⟩, starting := ?_ }
  intro w hw
  have hold := h.starting w hw
  have hne : a ≠ .online w := by
    intro heq
    subst a
    exact ha
  exact (Server.next_worker he hne (.inl hold)).trans hold

theorem Inv.launch (h : Inv cqinits s) (hl : s.launched < n) : Inv cqinits (launchNext s) := by
  have hw : s.worker ⟨s.launched, hl⟩ = .notLaunched := h.launched _ (le_refl _)
  rw [launchNext, dif_pos hl]
  have hmove := Inv.move (s := { s with launched := s.launched + 1 }) (w := ⟨s.launched, hl⟩)
    (p := .start) { h with launched := fun v hv => h.launched v (Nat.le_of_succ_le hv) }
    (Nat.lt_succ_self _) (by simp [hw, WorkerPc.arrival]) rfl trivial
    (by simp [hw, WorkerPc.begun])
  exact hmove

theorem Inv.goOnline (h : Inv cqinits s) {w : Fin n} (he : Starting s w) :
    (∃ as, run Server.step .init as = some (Server.next s.server (.online w))) ∧
    ∀ v, Function.update s.worker w .online v ≠ .online →
      (Server.next s.server (.online w)).worker v = .starting := by
  obtain ⟨as, hr⟩ := h.server
  obtain ⟨-, hne, hp, hf⟩ := he
  have hstart := h.starting w hne
  have hon : Server.Enabled s.server (.online w) := ⟨hf, hstart, hp⟩
  refine ⟨⟨as ++ [.online w], run_concat.mpr ⟨_, hr, hon, rfl⟩⟩, fun v hv => ?_⟩
  by_cases hvw : v = w
  · simp [hvw] at hv
  · simpa [Server.next, hvw] using h.starting v (by simpa [hvw] using hv)

theorem Inv.compare (h : Inv cqinits s) {w : Fin n} (he : Starting s w) {old : Nat}
    (hw : s.worker w = .compare old) : Inv cqinits (workerNext s w) := by
  have hcqs := h.cqs he.2.1
  have hcame : (s.worker w).cameOnline := by simp [hw, WorkerPc.cameOnline, WorkerPc.arrival]
  have hdecide : Arrival.Enabled (asArrivals s) (.decide w) :=
    ⟨old, by simp [asArrivals, hw, WorkerPc.arrival]⟩
  by_cases hfull : old + 1 = n
  · have hnext : workerNext s w = { s with worker := Function.update s.worker w .clear } := by
      simp [workerNext, hw, hcqs, hfull]
    rw [hnext]
    refine h.arrive h.server (.inr hcame) ?_ ?_ ?_ hdecide ?_ h.list rfl rfl rfl
    · exact fun v hv => h.starting_update he.2.1 hv
    · intro v hvw
      simp [hvw]
    · simp [WorkerPc.cameOnline, WorkerPc.arrival]
    · simp [asArrivals, Arrival.next, hw, WorkerPc.arrival, hfull, Function.comp_update]
  · have hnext : workerNext s w = ServerStartup.goOnline s w := by
      simp [workerNext, hw, hcqs, hfull]
    rw [hnext]
    obtain ⟨hserver, hstart⟩ := h.goOnline he
    refine h.arrive hserver (.inr hcame) hstart ?_ ?_ hdecide ?_ h.list rfl rfl rfl
    · intro v hvw
      simp [ServerStartup.goOnline, hvw]
    · simp [ServerStartup.goOnline, WorkerPc.cameOnline, WorkerPc.arrival]
    · simp [asArrivals, ServerStartup.goOnline, Arrival.next, hw, WorkerPc.arrival, hfull,
        Function.comp_update]

theorem Inv.clear (h : Inv cqinits s) {w : Fin n} (he : Starting s w)
    (hw : s.worker w = .clear) : Inv cqinits (workerNext s w) := by
  have hcame : (s.worker w).cameOnline := by simp [hw, WorkerPc.cameOnline, WorkerPc.arrival]
  have hnext : workerNext s w = ServerStartup.goOnline
      { s with cqInitializers := [], clears := s.clears ++ [w] } w := by
    simp [workerNext, hw]
  rw [hnext]
  obtain ⟨hserver, hstart⟩ := h.goOnline he
  refine h.arrive (a := .act w) hserver (.inr hcame) hstart ?_ ?_ ?_ ?_ ?_ rfl rfl rfl
  · intro v hvw
    simp [ServerStartup.goOnline, hvw]
  · simp [ServerStartup.goOnline, WorkerPc.cameOnline, WorkerPc.arrival]
  · simp [Arrival.Enabled, asArrivals, hw, WorkerPc.arrival]
  · simp [asArrivals, ServerStartup.goOnline, Arrival.next, WorkerPc.arrival,
      Function.comp_update]
  · simp [ServerStartup.goOnline]

theorem Inv.fetchAdd (h : Inv cqinits s) {w : Fin n} (he : Starting s w)
    (hw : s.worker w = .fetchAdd) : Inv cqinits (workerNext s w) := by
  have hnext : workerNext s w = { s with
      threadsOnline := s.threadsOnline + 1
      came := s.came ++ [w]
      worker := Function.update s.worker w (.compare s.threadsOnline) } := by
    simp [workerNext, hw]
  rw [hnext]
  refine h.arrive (a := .arrive w) h.server (.inl hw) ?_ ?_ ?_ ?_ ?_ h.list rfl rfl rfl
  · exact fun v hv => h.starting_update he.2.1 hv
  · intro v hvw
    simp [hvw]
  · simp [WorkerPc.cameOnline, WorkerPc.arrival]
  · simp [Arrival.Enabled, asArrivals, hw, WorkerPc.arrival]
  · simp [asArrivals, Arrival.next, WorkerPc.arrival, Function.comp_update]

theorem Inv.worker (h : Inv cqinits s) {w : Fin n} (he : Starting s w) :
    Inv cqinits (workerNext s w) := by
  have hl : w.val < s.launched := by
    by_contra hge
    exact he.1 (h.launched w (by omega))
  have hrange := h.inRange w
  cases hw : s.worker w with
  | notLaunched => exact absurd hw he.1
  | online => exact absurd hw he.2.1
  | start =>
    have hlt : w.val < s.server.cqs := by
      rw [h.cqs he.2.1]
      exact w.isLt
    have hlist := h.list_of_before (w := w) (by simp [hw, WorkerPc.arrival])
    have hnext : workerNext s w =
        { s with worker := Function.update s.worker w (.iterate 0 cqinits.length) } := by
      simp [workerNext, hw, hlt, hlist]
    rw [hnext]
    apply h.move hl <;> simp [hw, WorkerPc.arrival, WorkerPc.InRange, WorkerPc.begun]
  | iterate it last =>
    obtain ⟨rfl, hle⟩ : last = cqinits.length ∧ it ≤ cqinits.length := by
      simpa [hw, WorkerPc.InRange] using hrange
    have hlist := h.list_of_before (w := w) (by simp [hw, WorkerPc.arrival])
    by_cases hend : it = cqinits.length
    · have hnext : workerNext s w =
          { s with worker := Function.update s.worker w .fetchAdd } := by
        simp [workerNext, hw, hend]
      rw [hnext]
      apply h.move hl <;> simp [hw, WorkerPc.arrival, WorkerPc.InRange, WorkerPc.begun, hend]
    · have hlt : it < cqinits.length := by omega
      have hnext : workerNext s w = callInitializer
          { s with worker := Function.update s.worker w (.call it cqinits.length) } w
            cqinits[it] := by
        simp [workerNext, hw, hend, hlist, hlt]
      rw [hnext]
      exact h.invoke hw hlt
  | call it last =>
    obtain ⟨rfl, hlt⟩ : last = cqinits.length ∧ it < cqinits.length := by
      simpa [hw, WorkerPc.InRange] using hrange
    have hlist := h.list_of_before (w := w) (by simp [hw, WorkerPc.arrival])
    have hnext : workerNext s w =
        { s with worker := Function.update s.worker w (.iterate (it + 1) cqinits.length) } := by
      simp [workerNext, hw, hlist, hlt]
    rw [hnext]
    apply h.move hl <;> simp [hw, WorkerPc.arrival, WorkerPc.InRange, WorkerPc.begun]
    omega
  | fetchAdd => exact h.fetchAdd he hw
  | compare old => exact h.compare he hw
  | clear => exact h.clear he hw

theorem inv_step {s' : State I F n T} {a : Action F n T} (h : Inv cqinits s)
    (hs : step s a = some s') : Inv cqinits s' := by
  obtain ⟨⟨-, he⟩, rfl⟩ := stepOf_eq_some.mp hs
  cases a with
  | launch => exact h.launch he
  | worker w => exact h.worker he
  | server a => exact h.dispatch he.1 he.2

theorem inv_run {as : List (Action F n T)} (hr : run step (.init cqinits) as = some s) :
    Inv cqinits s :=
  inv_of_run (inv_init cqinits) (fun _ _ _ => inv_step) hr

theorem Inv.callsOn_of_cameOnline (h : Inv cqinits s) {w : Fin n}
    (hw : (s.worker w).cameOnline) : callsOn s w = cqinits := by
  rw [h.calls w, begun_of_cameOnline hw, List.take_length]

/-- The start-up of a server with at least one thread, under any schedule, `push` and `stop`
included. No iterator dangles. Once all workers have come online, the initializers have been
invoked with each queue once each, in order; no other queue gets any. The list is cleared at
most once, by the last worker to come online, and while a worker is about to clear it or it
is cleared nobody has an initializer left or iterates; with all workers in their loops it has
been cleared. -/
theorem startup_runs_initializers_once (hn : 0 < n) {as : List (Action F n T)}
    (hr : run step (.init cqinits) as = some s) :
    s.fault = none ∧ (∀ c ∈ s.calls, c.2 < n) ∧
    ((∀ w, (s.worker w).cameOnline) → ∀ q < n, callsOn s q = cqinits) ∧
    (s.clears = [] ∧ s.cqInitializers = cqinits ∨
      ∃ w, s.clears = [w] ∧ s.came.getLast? = some w ∧ s.cqInitializers = []) ∧
    ((∃ w, s.worker w = .clear) ∨ s.clears ≠ [] → ∀ w, (s.worker w).cameOnline) ∧
    ((∀ w, s.worker w = .online) → ∃ w, s.clears = [w]) := by
  have h := inv_run hr
  have : Nonempty (Fin n) := ⟨⟨0, hn⟩⟩
  refine ⟨h.fault, h.queues, fun hall q hq => ?_, ?_, fun hclear w => ?_, fun hall => ?_⟩
  · exact h.callsOn_of_cameOnline (w := ⟨q, hq⟩) (hall _)
  · rcases h.arrived.acted_last with hnil | ⟨w, hw, hlast⟩
    · have hnil' : s.clears = [] := hnil
      exact .inl ⟨hnil', by simp [h.list, hnil']⟩
    · have hw' : s.clears = [w] := hw
      exact .inr ⟨w, hw', hlast, by simp [h.list, hw']⟩
  · refine h.arrived.all_arrived (hclear.imp_left ?_) w
    intro ⟨v, hv⟩
    exact ⟨v, by simp [asArrivals, hv, WorkerPc.arrival]⟩
  · exact h.arrived.acted_of_after fun w => by simp [asArrivals, hall w, WorkerPc.arrival]

/-- Two workers race through one initializer while `stop` begins; `w` is the last. -/
def startTwo (w v : Fin 2) : List (Action Nat 2 Unit) :=
  [.launch, .worker w, .launch, .worker v, .worker w, .worker v, .worker v, .worker v, .worker v,
    .server .stop, .worker w, .worker w, .worker v, .server .stop, .server .stop, .worker w,
    .worker w, .worker w]

theorem startTwo_runs_initializers_once : ∃ s, run step (.init ["task"]) (startTwo 0 1) = some s ∧
    s.clears = [0] ∧ callsOn s 0 = ["task"] ∧ callsOn s 1 = ["task"] := by
  have hr : run step (.init ["task"]) (startTwo 0 1) = some _ := rfl
  have h := startup_runs_initializers_once Nat.two_pos hr
  refine ⟨_, hr, rfl, ?_⟩
  have hall := h.2.2.1 (by decide)
  exact ⟨hall 0 (by decide), hall 1 (by decide)⟩

end
end ServerStartup
end AsyncppGrpc
