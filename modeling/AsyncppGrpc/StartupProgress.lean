import AsyncppGrpc.ServerInitializers
import AsyncppGrpc.ServerProgress
import Mathlib.Algebra.Order.BigOperators.Group.Finset

/-! From the constructor to the return of `stop`. The start-up cannot go on for ever either, and
whichever way it interleaves with `stop` there is a next statement until `stop` has returned. -/
namespace AsyncppGrpc
open Run
variable {I F T : Type*} {n : Nat}

namespace Server
variable [DecidableEq T]

/-- Who has left the start-up does not return to it. -/
theorem started_next {s : State F n T} {a : Action F n T} (he : Enabled s a) {v : Fin n}
    (hv : s.worker v ≠ .starting) : (next s a).worker v ≠ .starting := by
  obtain ⟨-, he⟩ := he
  cases a with
  | beginPush t fn k => exact hv
  | push t => simpa [next] using hv
  | stop => simpa [next] using hv
  | handleEvent w =>
    by_cases hvw : v = w
    · subst v
      cases hw : s.worker w with
      | pop loop =>
        cases hq : s.dispatchQueue with
        | nil => cases loop <;> simp [next, handleEventNext, hw, hq]
        | cons cb q => cases cb <;> simp [next, handleEventNext, hw, hq]
      | call loop cb => simp [next, handleEventNext, hw]
      | store => simp [next, handleEventNext, hw]
      | _ => simp [hw, WorkerPc.inHandleEvent] at he
    · simpa [next, handleEventNext_worker_of_ne s hvw] using hv
  | online w => by_cases hvw : v = w <;> simp [next, hvw, hv]
  | nextAlarm w => by_cases hvw : v = w <;> simp [next, hvw, hv]
  | nextEvent w => by_cases hvw : v = w <;> simp [next, hvw, hv]
  | endEvent w => by_cases hvw : v = w <;> simp [next, hvw, hv]
  | exit w => by_cases hvw : v = w <;> simp [next, hvw, hv]

end Server

namespace ServerStartup

/-- The statements left of a worker's start-up when `len` initializers are in the list, with the
one it may leave the server's loop to do. -/
def startWork (len : Nat) : WorkerPc → Nat
  | .notLaunched | .online => 0
  | .start => 2 * len + 6
  | .iterate it _ => 2 * (len - it) + 5
  | .call it _ => 2 * (len - it) + 4
  | .fetchAdd => 4
  | .compare _ => 3
  | .clear => 2

/-- Nothing happens after a fault. -/
def faultWork : Option Fault → Nat
  | none => 1
  | some _ => 0

/-- What a step brings in. -/
def brings : Action F n T → Nat
  | .server a => Server.brings a
  | _ => 0

def begins : Action F n T → Bool
  | .server a => Server.begins a
  | _ => false

def takes : Action F n T → Option (Fin n)
  | .server a => Server.takes a
  | _ => none

/-- The start-up waits for nothing that is outstanding on the queues. -/
def Permits (mayReturn : Prop) (o : Fin n → Nat) (s : State I F n T) : Action F n T → Prop
  | .server a => Server.Permits mayReturn o s.server a
  | _ => True

instance (mayReturn : Prop) [Decidable mayReturn] (o : Fin n → Nat) (s : State I F n T)
    (a : Action F n T) : Decidable (Permits mayReturn o s a) :=
  match a with
  | .server a => inferInstanceAs (Decidable (Server.Permits mayReturn o s.server a))
  | .launch | .worker _ => instDecidableTrue

theorem startWork_mono {len len' : Nat} (h : len ≤ len') (p : WorkerPc) :
    startWork len p ≤ startWork len' p := by
  cases p with
  | start => simp only [startWork]; omega
  | iterate it last => simp only [startWork]; omega
  | call it last => simp only [startWork]; omega
  | _ => simp [startWork]

/-- `stop` has returned, or the process has been aborted. -/
def Ended (s : State I F n T) : Prop := s.server.stop = .stopped ∨ s.server.fault ≠ none

section
variable [DecidableEq T]

theorem workerNext_frame (s : State I F n T) {w v : Fin n} (hv : v ≠ w) :
    (workerNext s w).worker v = s.worker v ∧
      (workerNext s w).server.worker v = s.server.worker v := by
  unfold workerNext goOnline callInitializer
  repeat' split
  all_goals simp [Server.next, hv]

/-- A worker that is in the start-up leaves it by coming online. -/
theorem workerNext_self {s : State I F n T} {w : Fin n} (hw : s.worker w ≠ .notLaunched)
    (hon : s.worker w ≠ .online) : (workerNext s w).launched = s.launched ∧
      (workerNext s w).worker w ≠ .notLaunched ∧
      ((workerNext s w).worker w = .online → (workerNext s w).server.worker w ≠ .starting) := by
  unfold workerNext goOnline callInitializer
  repeat' split
  all_goals simp_all [Server.next]

variable [DecidableEq F]

/-- `stop` has joined the workers, so their start-up is over. -/
theorem Inv.callsOn_of_stopped {cqinits : List I} {s : State I F n T} (h : Inv cqinits s)
    (hs : s.server.stop = .stopped) (w : Fin n) : callsOn s w = cqinits := by
  obtain ⟨as, hr⟩ := h.server
  have hexited := (Server.attended_run hr).joined w (by simp [hs, Server.Joined])
  have honline : s.worker w = .online := by
    by_contra hne
    simp [h.starting w hne] at hexited
  exact h.callsOn_of_cameOnline (by simp [honline, WorkerPc.cameOnline, WorkerPc.arrival])

/-- Who has not been launched is yet to be, and who is online has left the start-up for the
server's loop. -/
structure Placed (cqinits : List I) (s : State I F n T) : Prop where
  inv : Inv cqinits s
  bounded : s.launched ≤ n
  notLaunched : ∀ w, s.worker w = .notLaunched → s.launched ≤ w.val
  online : ∀ w, s.worker w = .online → s.server.worker w ≠ .starting

variable {cqinits : List I} {s s' : State I F n T}

theorem placed_init : Placed cqinits (.init cqinits : State I F n T) where
  inv := inv_init cqinits
  bounded := Nat.zero_le _
  notLaunched _ _ := Nat.zero_le _
  online w hw := by simp [State.init] at hw

theorem placed_step {a : Action F n T} (h : Placed cqinits s) (hs : step s a = some s') :
    Placed cqinits s' := by
  have hinv := inv_step h.inv hs
  obtain ⟨⟨-, he⟩, rfl⟩ := stepOf_eq_some.mp hs
  cases a with
  | launch =>
    have hl : s.launched < n := he
    simp only [next, launchNext, dif_pos hl] at hinv ⊢
    refine ⟨hinv, hl, fun v hv => ?_, fun v hv => ?_⟩
    · by_cases hvl : v = ⟨s.launched, hl⟩
      · simp [hvl] at hv
      · have hle := h.notLaunched v (by simpa [hvl] using hv)
        have hne : v.val ≠ s.launched := fun heq => hvl (Fin.ext heq)
        show s.launched + 1 ≤ v.val
        omega
    · by_cases hvl : v = ⟨s.launched, hl⟩
      · simp [hvl] at hv
      · exact h.online v (by simpa [hvl] using hv)
  | worker w =>
    obtain ⟨hlaunched, hself, honline⟩ := workerNext_self he.1 he.2.1
    refine ⟨hinv, hlaunched.trans_le h.bounded, fun v hv => ?_, fun v hv => ?_⟩
    · by_cases hvw : v = w
      · subst v
        exact absurd hv hself
      · rw [show (next s (.worker w)).launched = s.launched from hlaunched]
        exact h.notLaunched v (by rwa [← (workerNext_frame s hvw).1])
    · by_cases hvw : v = w
      · subst v
        exact honline hv
      · rw [show (next s (.worker w)).server.worker v = s.server.worker v from
          (workerNext_frame s hvw).2]
        exact h.online v (by rwa [← (workerNext_frame s hvw).1])
  | server a =>
    exact ⟨hinv, h.bounded, h.notLaunched, fun v hv => Server.started_next he.2 (h.online v hv)⟩

/-- The step begins no push; what it needs is there, and nothing it waits for is. -/
structure Goes (mayReturn : Prop) (o : Fin n → Nat) (s : State I F n T) (a : Action F n T) :
    Prop where
  free : begins a = false
  enabled : Enabled s a
  event : ∀ w ∈ takes a, 0 < o w
  permitted : Permits mayReturn o s a

/-- As long as `stop` has not returned, it or a worker has a next statement, or the constructor
has a thread to start. -/
theorem Placed.goes (h : Placed cqinits s) (hne : ¬Ended s) {mayReturn : Prop} {o : Fin n → Nat}
    (hreturn : (∀ w, o w = 0) → mayReturn) : ∃ a, Goes mayReturn o s a := by
  obtain ⟨hs, hf⟩ := not_or.mp hne
  have hf := not_not.mp hf
  obtain ⟨bs, hbs⟩ := h.inv.server
  obtain ⟨a, ha⟩ := Server.stop_goes (Server.attended_run hbs) hf hs hreturn
  by_cases hl : s.launched < n
  · exact ⟨.launch, rfl, ⟨h.inv.fault, hl⟩, by simp [takes], trivial⟩
  · by_cases hon : ∃ w, a = .online w
    · obtain ⟨w, rfl⟩ := hon
      obtain ⟨-, hw, hidle⟩ := ha.enabled
      have hlaunched : s.worker w ≠ .notLaunched := by
        intro hw
        have hle := h.notLaunched w hw
        omega
      have hstarting : s.worker w ≠ .online := fun hon => h.online w hon hw
      exact ⟨.worker w, rfl, ⟨h.inv.fault, hlaunched, hstarting, hidle, hf⟩, by simp [takes],
        trivial⟩
    · have hallowed : Allowed s a := by
        cases a with
        | online w => exact absurd ⟨w, rfl⟩ hon
        | stop => exact Nat.le_antisymm h.bounded (by omega)
        | beginPush t fn k => simpa [Server.begins] using ha.free
        | _ => trivial
      exact ⟨.server a, ha.free, ⟨h.inv.fault, hallowed, ha.enabled⟩, ha.event, ha.permitted⟩

theorem placed_run {as : List (Action F n T)} (hr : run step (.init cqinits) as = some s) :
    Placed cqinits s :=
  inv_of_run placed_init (fun _ _ _ => placed_step) hr

end

section
variable [Fintype T]

/-- The statements that can still be executed on what there is. -/
def work (s : State I F n T) : Nat :=
  Server.work s.server + (n - s.launched) * (2 * s.cqInitializers.length + 7) +
    faultWork s.fault + ∑ w, startWork s.cqInitializers.length (s.worker w)

theorem work_init (cqinits : List I) :
    work (.init cqinits : State I F n T) = n * (2 * cqinits.length + 11) + 7 := by
  simp only [work, State.init, Server.work_init, faultWork, startWork, Finset.sum_const_zero,
    Nat.mul_add, Nat.sub_zero]
  omega

/-- A worker moves in its start-up, and leaves everything else alone. -/
theorem work_move (s : State I F n T) (w : Fin n) (p : WorkerPc) :
    work { s with worker := Function.update s.worker w p } +
      startWork s.cqInitializers.length (s.worker w) =
        work s + startWork s.cqInitializers.length p := by
  have hsum := Update.sum_update (startWork s.cqInitializers.length) s.worker w p
  simp only [work]
  omega

theorem work_launch {s : State I F n T} (h : s.launched < n) :
    work (launchNext s) + 1 ≤ work s := by
  have hsum := Update.sum_update (startWork s.cqInitializers.length) s.worker ⟨s.launched, h⟩
    .start
  have hmul : (n - s.launched) * (2 * s.cqInitializers.length + 7) =
      (n - (s.launched + 1)) * (2 * s.cqInitializers.length + 7) +
        (2 * s.cqInitializers.length + 7) := by
    rw [← Nat.succ_mul]
    congr 1
    omega
  have hstart : startWork s.cqInitializers.length .start = 2 * s.cqInitializers.length + 6 := rfl
  rw [hstart] at hsum
  simp only [launchNext, dif_pos h, work]
  omega

/-- An empty list leaves less to do. -/
theorem work_clear (s : State I F n T) (w : Fin n) :
    work { s with cqInitializers := [], clears := s.clears ++ [w] } ≤ work s := by
  have hsum : ∑ v, startWork 0 (s.worker v) ≤
      ∑ v, startWork s.cqInitializers.length (s.worker v) :=
    Finset.sum_le_sum fun v _ => startWork_mono (Nat.zero_le _) _
  have hmul : (n - s.launched) * (2 * 0 + 7) ≤
      (n - s.launched) * (2 * s.cqInitializers.length + 7) :=
    Nat.mul_le_mul_left _ (by omega)
  simp only [work, List.length_nil]
  omega

variable [DecidableEq T]

/-- The worker that comes online goes on to the server's loop. -/
theorem work_goOnline (s : State I F n T) (w : Fin n) :
    work (goOnline s w) + startWork s.cqInitializers.length (s.worker w) ≤ work s + 1 := by
  have hsum := Update.sum_update (startWork s.cqInitializers.length) s.worker w .online
  have hserver : Server.work (Server.next s.server (.online w)) ≤ Server.work s.server + 1 := by
    have hmove := Server.work_move s.server w .next
    have hnext : Server.workerWork (.next : Server.WorkerPc F) = 1 := rfl
    simp only [Server.next]
    omega
  have honline : startWork s.cqInitializers.length .online = 0 := rfl
  rw [honline] at hsum
  simp only [goOnline, work]
  omega

theorem work_workerNext {s : State I F n T} (hf : s.fault = none) {w : Fin n}
    (he : s.worker w ≠ .notLaunched ∧ s.worker w ≠ .online) :
    work (workerNext s w) + 1 ≤ work s := by
  have hmove := work_move s w
  have hfault : ∀ f, work { s with fault := some f } + 1 ≤ work s := by
    intro f
    simp only [work, hf, faultWork]
    omega
  cases hw : s.worker w with
  | notLaunched => exact absurd hw he.1
  | online => exact absurd hw he.2
  | start =>
    by_cases hq : w.val < s.server.cqs
    · have hiter := hmove (.iterate 0 s.cqInitializers.length)
      simp only [hw, startWork] at hiter
      simp only [workerNext, hw, hq, if_true]
      omega
    · simp only [workerNext, hw, hq, if_false]
      exact hfault _
  | iterate it last =>
    by_cases hend : it = last
    · have hadd := hmove .fetchAdd
      simp only [hw, startWork] at hadd
      simp only [workerNext, hw, hend, if_true]
      omega
    · cases hi : s.cqInitializers[it]? with
      | none =>
        simp only [workerNext, hw, hend, hi, if_false]
        exact hfault _
      | some e =>
        have hcall := hmove (.call it last)
        simp only [hw, startWork] at hcall
        simp only [workerNext, hw, hend, hi, if_false, callInitializer, work] at hcall ⊢
        omega
  | call it last =>
    cases hi : s.cqInitializers[it]? with
    | none =>
      simp only [workerNext, hw, hi]
      exact hfault _
    | some e =>
      have hlt : it < s.cqInitializers.length := (List.getElem?_eq_some_iff.mp hi).1
      have hiter := hmove (.iterate (it + 1) last)
      simp only [hw, startWork] at hiter
      simp only [workerNext, hw, hi]
      omega
  | fetchAdd =>
    have hcompare := hmove (.compare s.threadsOnline)
    simp only [hw, startWork] at hcompare
    simp only [workerNext, hw, work] at hcompare ⊢
    omega
  | compare old =>
    by_cases hlast : old + 1 = s.server.cqs
    · have hclear := hmove .clear
      simp only [hw, startWork] at hclear
      simp only [workerNext, hw, hlast, if_true]
      omega
    · have honline := work_goOnline s w
      simp only [hw, startWork] at honline
      simp only [workerNext, hw, hlast, if_false]
      omega
  | clear =>
    have honline := work_goOnline { s with cqInitializers := [], clears := s.clears ++ [w] } w
    have hclear := work_clear s w
    simp only [hw, startWork] at honline
    simp only [workerNext, hw]
    omega

variable [DecidableEq F]

theorem work_step : Progress.Pays (step (I := I) (F := F) (n := n) (T := T)) work brings := by
  intro s a s' hs
  obtain ⟨⟨hf, he⟩, rfl⟩ := stepOf_eq_some.mp hs
  cases a with
  | launch => exact work_launch he
  | worker w => exact work_workerNext hf ⟨he.1, he.2.1⟩
  | server a =>
    have hserver := Server.work_step s.server a _ (stepOf_eq_some.mpr ⟨he.2, rfl⟩)
    simp only [next, brings, work] at hserver ⊢
    omega

/-- A server coming up, with what is outstanding on its queues. -/
abbrev Loaded (I F : Type*) (n : Nat) (T : Type*) := Outstanding.State (Fin n) (State I F n T)

variable (returns : Loaded I F n T → Bool)

def loadedStep : Loaded I F n T → Outstanding.Action (Fin n) (Action F n T) →
    Option (Loaded I F n T) :=
  Outstanding.step takes (fun s => Permits (returns s = true) s.outstanding s.machine) step

def charge : Outstanding.Action (Fin n) (Action F n T) → Nat := Outstanding.charge takes 2 brings

def load (s : Loaded I F n T) : Nat := Outstanding.load work 2 s

omit [Fintype T] [DecidableEq T] [DecidableEq F] in
theorem charge_act {a : Action F n T} : charge (.act a) = 0 ↔ begins a = false := by
  cases a with
  | server a =>
    cases a <;>
      simp [charge, Outstanding.charge, takes, brings, begins, Server.takes, Server.brings,
        Server.begins]
  | _ => simp [charge, Outstanding.charge, takes, brings, begins]

theorem load_step : Progress.Pays (loadedStep returns) load charge := by
  refine Outstanding.pays work_step fun a ha => ?_
  cases a with
  | server a => cases a <;> simp_all [takes, brings, Server.takes, Server.brings]
  | _ => simp [takes] at ha

variable {returns}

omit [Fintype T] in
theorem Goes.exists_step {s : Loaded I F n T} {a : Action F n T}
    (h : Goes (returns s = true) s.outstanding s.machine a) :
    ∃ b t, charge b = 0 ∧ loadedStep returns s b = some t := by
  have hready : Outstanding.Ready takes
      (fun u : Loaded I F n T => Permits (returns u = true) u.outstanding u.machine) s a :=
    ⟨h.event, h.permitted⟩
  obtain ⟨t, ht⟩ := Outstanding.exists_step next h.enabled hready
  exact ⟨.act a, t, charge_act.mpr h.free, ht⟩

/-- The server always comes up and goes down, with any operations outstanding on its queues that
initializers, handlers and callbacks have started, and `m_server->Shutdown()` returning as late as
when none is. A run from the constructor on has at most `n * (2 * l + 11) + 7` steps for `l`
initializers, and 10 for each push that begins and 3 for each operation that is started. As long
as `stop` has not returned there is a next step that begins no push and starts no operation, also
when `stop` has begun before the workers are online; such steps alone bring `stop` to its return,
unless one of them is fatal, and by then every worker has run the initializers on its queue. -/
theorem startup_stop_returns
    (hreturns : ∀ s : Loaded I F n T, (∀ w, s.outstanding w = 0) → returns s = true)
    {cqinits : List I} {as : List (Outstanding.Action (Fin n) (Action F n T))}
    {s : Loaded I F n T} (hr : run (loadedStep returns) (.init (.init cqinits)) as = some s) :
    as.length + load s ≤ n * (2 * cqinits.length + 11) + 7 + Progress.brought charge as ∧
    (¬Ended s.machine → ∃ a t, charge a = 0 ∧ loadedStep returns s a = some t) ∧
    ∃ bs t, (∀ a ∈ bs, charge a = 0) ∧ run (loadedStep returns) s bs = some t ∧
      Ended t.machine ∧
      (t.machine.server.fault = none → ∀ w : Fin n, callsOn t.machine w = cqinits) := by
  have hplaced := placed_run (Outstanding.machine_run hr)
  have hkeep : ∀ (u : Loaded I F n T) a v, Placed cqinits u.machine →
      loadedStep returns u a = some v → Placed cqinits v.machine :=
    fun u a v => Outstanding.inv_machine (fun _ _ _ => placed_step)
  have hgo : ∀ u : Loaded I F n T, Placed cqinits u.machine → ¬Ended u.machine →
      ∃ a t, charge a = 0 ∧ loadedStep returns u a = some t := by
    intro u h hne
    obtain ⟨a, ha⟩ := h.goes hne (hreturns u)
    exact ha.exists_step
  refine ⟨?_, hgo s hplaced, ?_⟩
  · have hinit : load (.init (.init cqinits) : Loaded I F n T) =
        n * (2 * cqinits.length + 11) + 7 := by
      simp [load, Outstanding.load, Outstanding.State.init, work_init]
    rw [← hinit]
    exact (load_step returns).length_le hr
  · obtain ⟨bs, t, hfree, hrun, hended⟩ := (load_step returns).exists_done hkeep hgo hplaced
    have hplaced' : Placed cqinits t.machine :=
      inv_of_run (P := fun u : Loaded I F n T => Placed cqinits u.machine) hplaced hkeep hrun
    refine ⟨bs, t, hfree, hrun, hended, fun hf => hplaced'.inv.callsOn_of_stopped ?_⟩
    exact hended.resolve_right (by simp [hf])

/-- The first of two workers runs its initializer, which starts an operation; `stop` begins and
waits for it before either worker is online. -/
def startAndStop (w v : Fin 2) : List (Outstanding.Action (Fin 2) (Action Nat 2 Unit)) :=
  [.act .launch, .act .launch, .act (.worker w), .act (.worker w), .start w, .act (.worker w),
    .act (.server .stop), .act (.worker v)]

/-- `m_server->Shutdown()` returns when nothing is outstanding. -/
def whenIdle (s : Loaded I F n T) : Bool := decide (∀ w, s.outstanding w = 0)

theorem startAndStop_returns :
    ∃ s, run (loadedStep whenIdle) (.init (.init ["task"])) (startAndStop 0 1) = some s ∧
      s.machine.server.stop = .shutdownServer ∧ s.outstanding 0 = 1 ∧
      ∃ a t, charge a = 0 ∧ loadedStep whenIdle s a = some t := by
  have hreturns : ∀ s : Loaded String Nat 2 Unit, (∀ w, s.outstanding w = 0) →
      whenIdle s = true := fun s h => decide_eq_true h
  have hr : run (loadedStep whenIdle) (.init (.init ["task"])) (startAndStop 0 1) = some _ := rfl
  refine ⟨_, hr, rfl, rfl, (startup_stop_returns hreturns hr).2.1 ?_⟩
  intro hended
  rcases hended with hstop | hfault
  · cases hstop
  · exact hfault rfl

end
end ServerStartup
end AsyncppGrpc
