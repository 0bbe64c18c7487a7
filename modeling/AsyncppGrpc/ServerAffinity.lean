import AsyncppGrpc.ServerWakeup

/-! Which worker runs the callbacks given to `server::push`. They share one queue and one
alarm, and only the push that sets the alarm uses its index. -/
namespace AsyncppGrpc.Server
open Run
variable {F T : Type*} {n : Nat}

def PushPc.cqIdx : PushPc F → Nat
  | .emplace _ k | .exchange k | .set k => k

/-- The index of the push that sets the alarm in this step. -/
def setsAlarm (s : State F n T) : Action F n T → Option Nat
  | .push t => match s.pushing t with
    | some (.set k) => if s.cqs = 0 ∨ s.shutdown (k % s.cqs) then none else some k
    | _ => none
  | _ => none

/-- The pushes that begin select the queue `k` selects. -/
def SameQueue (k : Nat) (_ : State F n T) : Action F n T → Prop
  | .beginPush _ _ j => j % n = k % n
  | _ => True

instance (k : Nat) (s : State F n T) (a : Action F n T) : Decidable (SameQueue k s a) :=
  match a with
  | .beginPush _ _ j => inferInstanceAs (Decidable (j % n = k % n))
  | .push _ | .online _ | .nextAlarm _ | .nextEvent _ | .endEvent _ | .handleEvent _ | .exit _
  | .stop => instDecidableTrue

/-- The alarm and the workers handling it belong to pushes that have set it, the alarm and
the worker that has not put the flag back to the last one. -/
structure Armed (s : State F n T) (sets : List Nat) : Prop where
  cqs : s.cqs = n ∨ s.cqs = 0
  alarm : ∀ i ∈ s.alarms, ∃ k ∈ sets.getLast?, i = k % n
  holding : ∀ w, holds (s.worker w) = true → ∃ k ∈ sets.getLast?, w.val = k % n
  handling : ∀ w, (s.worker w).inHandleEvent = true → ∃ k ∈ sets, w.val = k % n

/-- A push about to set the alarm finds none set and no worker before `store(true)`. -/
def Exclusive (s : State F n T) : Prop :=
  ∀ t k, s.pushing t = some (.set k) → s.alarms = [] ∧ ∀ w, holds (s.worker w) = false

theorem armed_init : Armed (.init : State F n T) [] := by
  constructor <;> simp [State.init, holds, WorkerPc.inHandleEvent]

/-- Worker `w` moves on; it enters no handler it was not in. -/
theorem Armed.move {s : State F n T} {sets : List Nat} (h : Armed s sets) {w : Fin n}
    {p : WorkerPc F} (hh : holds p = true → holds (s.worker w) = true)
    (hi : p.inHandleEvent = true → (s.worker w).inHandleEvent = true) :
    Armed { s with worker := Function.update s.worker w p } sets :=
  { h with
    holding := by
      intro v hv
      by_cases hvw : v = w
      · subst v
        exact h.holding w (hh (by simpa using hv))
      · exact h.holding v (by simpa [hvw] using hv)
    handling := by
      intro v hv
      by_cases hvw : v = w
      · subst v
        exact h.handling w (hi (by simpa using hv))
      · exact h.handling v (by simpa [hvw] using hv) }

/-- `handle_event` never goes back before `store(true)`. -/
theorem handleEventNext_holds {s : State F n T} {w : Fin n}
    (hv : holds ((handleEventNext s w).worker w) = true) : holds (s.worker w) = true := by
  cases hw : s.worker w with
  | pop loop =>
    cases hq : s.dispatchQueue with
    | nil => cases loop <;> simp_all [handleEventNext, holds]
    | cons cb q => cases cb <;> cases loop <;> simp_all [handleEventNext, holds]
  | call loop cb => cases loop <;> simp_all [handleEventNext, holds]
  | store => rfl
  | _ => simp [handleEventNext, hw, holds] at hv

theorem Armed.handleEvent {s : State F n T} {sets : List Nat} (h : Armed s sets) {w : Fin n}
    (he : (s.worker w).inHandleEvent = true) : Armed (handleEventNext s w) sets := by
  have hmove := h.move (w := w) (p := (handleEventNext s w).worker w) handleEventNext_holds
    (fun _ => he)
  rw [← handleEventNext_worker] at hmove
  exact ⟨by simpa using hmove.cqs, by simpa using hmove.alarm, hmove.holding, hmove.handling⟩

theorem Armed.stop {s : State F n T} {sets : List Nat} (h : Armed s sets) :
    Armed (stopNext s) sets := by
  refine ⟨?_, by simpa using h.alarm, by simpa using h.holding, by simpa using h.handling⟩
  have hcqs := h.cqs
  unfold stopNext
  repeat' split
  all_goals simp [hcqs]

variable [DecidableEq T]

theorem Armed.push {s : State F n T} {sets : List Nat} (h : Armed s sets) (hx : Exclusive s)
    (t : Thread n T) : Armed (pushNext s t) (sets ++ (setsAlarm s (.push t)).toList) := by
  cases hp : s.pushing t with
  | none => simpa [pushNext, setsAlarm, hp] using h
  | some pc =>
    cases pc with
    | emplace fn k =>
      simp only [pushNext, setsAlarm, hp, Option.toList_none, List.append_nil]
      exact ⟨h.cqs, h.alarm, h.holding, h.handling⟩
    | exchange k =>
      simp only [pushNext, setsAlarm, hp, Option.toList_none, List.append_nil]
      exact ⟨h.cqs, h.alarm, h.holding, h.handling⟩
    | set k =>
      obtain ⟨hal, hidle⟩ := hx t k hp
      by_cases hk : s.cqs = 0
      · simp only [pushNext, setsAlarm, hp, hk, if_true, true_or, Option.toList_none,
          List.append_nil]
        exact ⟨.inr rfl, h.alarm, h.holding, h.handling⟩
      · have hn : s.cqs = n := h.cqs.resolve_right hk
        by_cases hs : s.shutdown (k % s.cqs) = true
        · simp only [pushNext, setsAlarm, hp, hk, hs, if_true, if_false, or_true,
            Option.toList_none, List.append_nil]
          exact ⟨h.cqs, h.alarm, h.holding, h.handling⟩
        · simp only [pushNext, setsAlarm, hp, hk, hs, if_false]
          refine ⟨.inl hn, ?_, ?_, ?_⟩
          · intro i hi
            refine ⟨k, by simp, ?_⟩
            simpa [hal, hn] using hi
          · intro w hw
            exact absurd hw (by simp [hidle w])
          · intro w hw
            obtain ⟨j, hj, hjw⟩ := h.handling w hw
            exact ⟨j, List.mem_append_left _ hj, hjw⟩

variable [DecidableEq F]

theorem armed_step {s s' : State F n T} {sets : List Nat} {a : Action F n T}
    (h : Armed s sets) (hx : Exclusive s) (hs : step s a = some s') :
    Armed s' (sets ++ (setsAlarm s a).toList) := by
  obtain ⟨⟨-, he⟩, rfl⟩ := stepOf_eq_some.mp hs
  cases a with
  | push t => exact h.push hx t
  | beginPush t fn k =>
    simp only [setsAlarm, Option.toList_none, List.append_nil]
    exact ⟨h.cqs, h.alarm, h.holding, h.handling⟩
  | nextAlarm w =>
    simp only [setsAlarm, Option.toList_none, List.append_nil]
    obtain ⟨k, hk, hkw⟩ := h.alarm w he.2
    refine ⟨h.cqs, fun i hi => h.alarm i (List.mem_of_mem_erase hi), ?_, ?_⟩
    · intro v hv
      by_cases hvw : v = w
      · subst v
        exact ⟨k, hk, hkw⟩
      · exact h.holding v (by simpa [next, hvw] using hv)
    · intro v hv
      by_cases hvw : v = w
      · subst v
        exact ⟨k, List.mem_of_getLast? hk, hkw⟩
      · exact h.handling v (by simpa [next, hvw] using hv)
  | handleEvent w =>
    simp only [setsAlarm, Option.toList_none, List.append_nil]
    exact h.handleEvent he.1
  | stop =>
    simp only [setsAlarm, Option.toList_none, List.append_nil]
    exact h.stop
  | _ =>
    simp only [setsAlarm, Option.toList_none, List.append_nil]
    exact h.move (by simp [holds]) (by simp [WorkerPc.inHandleEvent])

theorem exclusive_run {s : State F n T} {as : List (Action F n T)}
    (hr : run step .init as = some s) : Exclusive s := by
  obtain ⟨a, -, h⟩ := exists_refines hr
  intro t k ht
  have hclaims : (view s).claiming t = true := by simp [view, ht, claims]
  exact ⟨List.length_eq_zero_iff.mp (h.signals_eq_zero hclaims), h.not_holding hclaims⟩

theorem armed_run {s : State F n T} {as : List (Action F n T)}
    (hr : run step .init as = some s) : Armed s (labels step setsAlarm .init as) := by
  have hx : Always step Exclusive (.init : State F n T) as :=
    always_of_run (fun _ _ => exclusive_run) as
  exact inv_of_labels armed_init (fun s sets a s' => armed_step) hx.guarded hr

/-- The pushes in progress, and those that have set the alarm, select the queue `k` selects. -/
structure OneQueue (k : Nat) (s : State F n T) (sets : List Nat) : Prop where
  pushing : ∀ t, ∀ pc ∈ s.pushing t, pc.cqIdx % n = k % n
  sets : ∀ j ∈ sets, j % n = k % n

omit [DecidableEq F] in
/-- `push` keeps its index. -/
theorem pushNext_cqIdx {s : State F n T} {t u : Thread n T} {pc : PushPc F}
    (h : pc ∈ (pushNext s t).pushing u) : ∃ pc' ∈ s.pushing u, pc'.cqIdx = pc.cqIdx := by
  by_cases hut : u = t
  · subst u
    cases hp : s.pushing t with
    | none => simp [pushNext, hp] at h
    | some pc' =>
      refine ⟨pc', rfl, ?_⟩
      cases pc' with
      | emplace fn k =>
        obtain rfl : .exchange k = pc := by simpa [pushNext, hp] using h
        rfl
      | exchange k =>
        obtain ⟨-, rfl⟩ : s.dispatchNeedAlarm = true ∧ .set k = pc := by
          simpa [pushNext, hp] using h
        rfl
      | set k =>
        by_cases hk : s.cqs = 0
        · obtain rfl : .set k = pc := by simpa [pushNext, hp, hk] using h
          rfl
        · by_cases hs : s.shutdown (k % s.cqs) = true
          · obtain rfl : .set k = pc := by simpa [pushNext, hp, hk, hs] using h
            rfl
          · simp [pushNext, hp, hk, hs] at h
  · rw [pushNext_pushing_of_ne s hut] at h
    exact ⟨pc, h, rfl⟩

theorem oneQueue_step {k : Nat} {s s' : State F n T} {sets : List Nat} {a : Action F n T}
    (h : OneQueue k s sets) (hk : SameQueue k s a) (hs : step s a = some s') :
    OneQueue k s' (sets ++ (setsAlarm s a).toList) := by
  obtain ⟨⟨-, he⟩, rfl⟩ := stepOf_eq_some.mp hs
  cases a with
  | beginPush t fn j =>
    simp only [setsAlarm, Option.toList_none, List.append_nil]
    refine ⟨fun u pc hpc => ?_, h.sets⟩
    by_cases hut : u = t
    · obtain rfl : .emplace fn j = pc := by simpa [next, hut] using hpc
      exact hk
    · exact h.pushing u pc (by simpa [next, hut] using hpc)
  | push t =>
    refine ⟨fun u pc hpc => ?_, fun j hj => ?_⟩
    · obtain ⟨pc', hpc', heq⟩ := pushNext_cqIdx hpc
      rw [← heq]
      exact h.pushing u pc' hpc'
    · rcases List.mem_append.mp hj with hj | hj
      · exact h.sets j hj
      · have hset : s.pushing t = some (.set j) := by
          simp only [setsAlarm] at hj
          repeat' split at hj
          all_goals simp_all
        exact h.pushing t (.set j) hset
  | handleEvent w =>
    simp only [setsAlarm, Option.toList_none, List.append_nil]
    exact ⟨by simpa [next] using h.pushing, h.sets⟩
  | stop =>
    simp only [setsAlarm, Option.toList_none, List.append_nil]
    exact ⟨by simpa [next] using h.pushing, h.sets⟩
  | _ =>
    simp only [setsAlarm, Option.toList_none, List.append_nil]
    exact ⟨h.pushing, h.sets⟩

theorem oneQueue_run {k : Nat} {s : State F n T} {as : List (Action F n T)}
    (hk : Guarded step (SameQueue k) (.init : State F n T) as)
    (hr : run step .init as = some s) : OneQueue k s (labels step setsAlarm .init as) := by
  refine inv_of_labels ?_ (fun s sets a s' => oneQueue_step) hk hr
  constructor <;> simp [State.init]

/-- If all pushes select one queue, its worker handles every alarm. -/
theorem handler_of_sameQueue {k : Nat} {s : State F n T} {as : List (Action F n T)}
    (hk : Guarded step (SameQueue k) (.init : State F n T) as)
    (hr : run step .init as = some s) {w : Fin n} (hw : (s.worker w).inHandleEvent = true) :
    w.val = k % n := by
  obtain ⟨j, hj, hjw⟩ := (armed_run hr).handling w hw
  rw [hjw]
  exact (oneQueue_run hk hr).sets j hj

theorem nextAlarm_of_inHandleEvent {s s' : State F n T} {a : Action F n T}
    (hs : step s a = some s') {w : Fin n} (hw : (s'.worker w).inHandleEvent = true) :
    a = .nextAlarm w ∨ (s.worker w).inHandleEvent = true := by
  obtain ⟨⟨-, he⟩, rfl⟩ := stepOf_eq_some.mp hs
  cases a with
  | beginPush t fn k => exact .inr hw
  | push t => exact .inr (by simpa [next] using hw)
  | stop => exact .inr (by simpa [next] using hw)
  | nextAlarm v =>
    by_cases hvw : w = v
    · exact .inl (by rw [hvw])
    · exact .inr (by simpa [next, hvw] using hw)
  | handleEvent v =>
    by_cases hvw : w = v
    · exact .inr (hvw ▸ he.1)
    · exact .inr (by simpa [next, handleEventNext_worker_of_ne s hvw] using hw)
  | online v | nextEvent v | endEvent v | exit v =>
    by_cases hvw : w = v
    · simp [next, hvw, WorkerPc.inHandleEvent] at hw
    · exact .inr (by simpa [next, hvw] using hw)

/-- A worker in `handle_event` has taken the alarm. -/
theorem exists_nextAlarm {s : State F n T} {as : List (Action F n T)}
    (hr : run step .init as = some s) {w : Fin n} (hw : (s.worker w).inHandleEvent = true) :
    ∃ pre post, as = pre ++ .nextAlarm w :: post ∧ .nextAlarm w ∉ post := by
  refine log_of_run (I := fun (s : State F n T) as => (s.worker w).inHandleEvent = true →
    ∃ pre post, as = pre ++ .nextAlarm w :: post ∧ .nextAlarm w ∉ post) ?_ ?_ hr hw
  · simp [State.init, WorkerPc.inHandleEvent]
  · intro s bs a s' ih hs hin
    by_cases ha : a = .nextAlarm w
    · exact ⟨bs, [], by simp [ha], by simp⟩
    · obtain ⟨pre, post, hbs, hpost⟩ := ih ((nextAlarm_of_inHandleEvent hs hin).resolve_left ha)
      refine ⟨pre, post ++ [a], by simp [hbs], ?_⟩
      simpa [hpost] using Ne.symm ha

/-- The alarm a worker takes was set by the last push to have set it. -/
theorem sets_of_nextAlarm {s : State F n T} {pre post : List (Action F n T)} {w : Fin n}
    (hr : run step .init (pre ++ .nextAlarm w :: post) = some s) :
    ∃ k ∈ (labels step setsAlarm .init pre).getLast?, w.val = k % n := by
  rw [run_append] at hr
  obtain ⟨u, hu, hr'⟩ := Option.bind_eq_some_iff.mp hr
  obtain ⟨v, hv, -⟩ := run_cons_eq_some.mp hr'
  have he := (stepOf_eq_some.mp hv).1
  exact (armed_run hu).alarm w he.2.2

/-- A callback runs on the worker of the queue that some push selected when it set the alarm, the
one that the worker took before it came to the callback; in the first drain loop also the last
push to have set it. -/
theorem executed_by_armed_worker {s : State F n T} {as : List (Action F n T)}
    (hr : run step .init as = some s) {w : Fin n} {loop : Loop} {cb : F}
    (hw : s.worker w = .call loop cb) :
    (∃ k ∈ labels step setsAlarm .init as, w.val = k % n) ∧
    (∃ pre post, as = pre ++ .nextAlarm w :: post ∧ .nextAlarm w ∉ post ∧
      ∃ k ∈ (labels step setsAlarm .init pre).getLast?, w.val = k % n) ∧
    (loop = .first → ∃ k ∈ (labels step setsAlarm .init as).getLast?, w.val = k % n) ∧
    ∀ k, Guarded step (SameQueue k) (.init : State F n T) as → w.val = k % n := by
  have h := armed_run hr
  have hin : (s.worker w).inHandleEvent = true := by simp [hw, WorkerPc.inHandleEvent]
  refine ⟨h.handling w hin, ?_, fun hl => ?_, fun k hk => ?_⟩
  · obtain ⟨pre, post, rfl, hpost⟩ := exists_nextAlarm hr hin
    exact ⟨pre, post, rfl, hpost, sets_of_nextAlarm hr⟩
  · exact h.holding w (by simp [hw, hl, holds])
  · exact handler_of_sameQueue hk hr hin

/-- Every callback being executed was pushed with an index that selects its worker. -/
def Affinity (as : List (Action F n T)) : Prop :=
  ∀ s, run step .init as = some s → ∀ w loop cb, s.worker w = .call loop cb →
    ∃ t k, .beginPush t (some cb) k ∈ as ∧ w.val = k % n

/-- A push to queue 0 sets the alarm; a push to queue 1 comes before it is handled. -/
def twoPushes (w v : Fin 2) : List (Action Nat 2 Bool) :=
  [.online w, .online v, .beginPush (.external false) (some 7) 0, .push (.external false),
    .push (.external false), .push (.external false),
    .beginPush (.external true) (some 8) 1, .push (.external true), .push (.external true),
    .nextAlarm w, .handleEvent w, .handleEvent w, .handleEvent w]

theorem twoPushes_not_affine : ¬Affinity (twoPushes 0 1) := by
  intro h
  have hr : run step .init (twoPushes 0 1) = some _ := rfl
  obtain ⟨t, k, hmem, hk⟩ := h _ hr 0 .first 8 rfl
  obtain ⟨-, rfl⟩ : t = .external true ∧ k = 1 := by simpa [twoPushes] using hmem
  simp at hk

theorem twoPushes_executed : ∃ s, run step .init (twoPushes 0 1) = some s ∧
    s.worker 0 = .call .first 8 ∧
    ∃ k ∈ (labels step setsAlarm .init (twoPushes 0 1)).getLast?, (0 : Fin 2).val = k % 2 := by
  have hr : run step .init (twoPushes 0 1) = some _ := rfl
  exact ⟨_, hr, rfl, (executed_by_armed_worker hr (w := 0) rfl).2.2.1 rfl⟩

end AsyncppGrpc.Server
