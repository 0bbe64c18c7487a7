import AsyncppGrpc.ServerWakeup

/-! The queues of a server over its life: how many there are, which are shut down, and that
whatever is on a queue has a worker that will take it. Nothing here depends on who pushes. -/
namespace AsyncppGrpc.Server
open Run
variable {F T : Type*} {n : Nat}

/-- The workers `stop` has joined. -/
def Joined : StopPc → Nat → Prop
  | .join k, w => w < k
  | .clear, _ | .stopped, _ => True
  | _, _ => False

/-- `stop` has shut queue `j` down. -/
def Past : StopPc → Nat → Prop
  | .shutdownCq k, j => j < k
  | .join _, _ | .clear, _ | .stopped, _ => True
  | _, _ => False

/-- `m_cqs` keeps its size until `stop` clears it. -/
def Sized (s : State F n T) : Prop := s.cqs = if s.stop = .stopped then 0 else n

structure Attended (s : State F n T) : Prop where
  sized : Sized s
  shutdown : ∀ j < n, s.shutdown j = true ↔ Past s.stop j
  alarm : ∀ k ∈ s.alarms, ∃ w : Fin n, w.val = k ∧ s.worker w ≠ .exited
  exited : ∀ w, s.worker w = .exited → s.shutdown w = true
  joined : ∀ w : Fin n, Joined s.stop w → s.worker w = .exited

theorem attended_init : Attended (.init : State F n T) where
  sized := rfl
  shutdown j _ := by simp [State.init, Past]
  alarm k h := by simp [State.init] at h
  exited w h := by simp [State.init] at h
  joined w h := by simp [State.init, Joined] at h

theorem Sized.ne_zero_iff {s : State F n T} (h : Sized s) :
    s.cqs ≠ 0 ↔ n ≠ 0 ∧ s.stop ≠ .stopped := by
  rw [h]
  split <;> simp_all

theorem Sized.eq_of_ne_zero {s : State F n T} (h : Sized s) (hpos : s.cqs ≠ 0) : s.cqs = n := by
  rw [h, if_neg (h.ne_zero_iff.mp hpos).2]

theorem Attended.cqs {s : State F n T} (h : Attended s) (hs : s.stop ≠ .stopped) : s.cqs = n := by
  rw [h.sized, if_neg hs]

/-- Once `stop` has joined the workers no alarm is left. -/
theorem Attended.alarms_eq_nil {s : State F n T} (h : Attended s)
    (hex : ∀ w, s.worker w = .exited) : s.alarms = [] := by
  refine List.eq_nil_iff_forall_not_mem.mpr fun k hk => ?_
  obtain ⟨w, -, hw⟩ := h.alarm k hk
  exact hw (hex w)

theorem stopNext_cqs (s : State F n T) :
    (stopNext s).cqs = if s.stop = .clear then 0 else s.cqs := by
  cases hpc : s.stop with
  | shutdownCq k => by_cases hk : k < s.cqs <;> simp [stopNext, hpc, hk]
  | join k => by_cases hk : k < n <;> simp [stopNext, hpc, hk]
  | _ => simp [stopNext, hpc]

theorem stopNext_stopped (s : State F n T) :
    (stopNext s).stop = .stopped ↔ s.stop = .clear ∨ s.stop = .stopped := by
  cases hpc : s.stop with
  | shutdownCq k => by_cases hk : k < s.cqs <;> simp [stopNext, hpc, hk]
  | join k => by_cases hk : k < n <;> simp [stopNext, hpc, hk]
  | _ => simp [stopNext, hpc]

theorem Sized.stop {s : State F n T} (h : Sized s) (hs : s.stop ≠ .stopped) :
    Sized (stopNext s) := by
  have hcqs : s.cqs = n := by simpa [Sized, hs] using h
  simp [Sized, stopNext_cqs, stopNext_stopped, hs, hcqs]

/-- The loop over `m_cqs` shuts down one queue at a time. -/
theorem past_stopNext {s : State F n T} (hcqs : s.cqs = n) {j : Nat} (hj : j < n) :
    Past (stopNext s).stop j ↔ Past s.stop j ∨ s.stop = .shutdownCq j := by
  cases hs : s.stop with
  | shutdownCq k =>
    by_cases hk : k < s.cqs
    · simp only [stopNext, hs, hk, if_true, Past, StopPc.shutdownCq.injEq]
      omega
    · simp only [stopNext, hs, hk, if_false, Past, StopPc.shutdownCq.injEq, true_iff]
      omega
  | join k => by_cases hk : k < n <;> simp [stopNext, hs, hk, Past]
  | _ => simp [stopNext, hs, Past]

/-- A thread is past its `join` when it was before, or when it is the one joined. -/
theorem joined_stopNext {s : State F n T} {w : Fin n} (h : Joined (stopNext s).stop w) :
    Joined s.stop w ∨ s.stop = .join w := by
  cases hs : s.stop with
  | shutdownCq k => by_cases hk : k < s.cqs <;> simp [stopNext, hs, hk, Joined] at h
  | join k =>
    by_cases hk : k < n
    · have hle : w.val < k + 1 := by simpa [stopNext, hs, hk, Joined] using h
      simp only [Joined, StopPc.join.injEq]
      omega
    · exact .inl (show w.val < k by omega)
  | _ => simp_all [stopNext, Joined]

theorem Attended.stop {s : State F n T} (h : Attended s) (hne : s.stop ≠ .stopped)
    (hj : ∀ w : Fin n, s.stop = .join w → s.worker w = .exited) : Attended (stopNext s) where
  sized := h.sized.stop hne
  shutdown j hjn := by
    rw [stopNext_shutdown, past_stopNext (h.cqs hne) hjn, h.shutdown j hjn, h.cqs hne,
      and_iff_left hjn]
  alarm := by simpa using h.alarm
  exited w hw := by
    rw [stopNext_shutdown]
    exact .inl (h.exited w (by simpa using hw))
  joined w hw := by
    rw [(stopNext_frame s).1]
    exact (joined_stopNext hw).elim (h.joined w) (hj w)

/-- A worker not past its loop moves to another control point before the end of its loop. -/
theorem Attended.move {s : State F n T} (h : Attended s) {w : Fin n} {p : WorkerPc F}
    (hw : s.worker w ≠ .exited) (hne : p ≠ .exited) :
    Attended { s with worker := Function.update s.worker w p } where
  sized := h.sized
  shutdown := h.shutdown
  alarm k hk := by
    obtain ⟨v, hv, hex⟩ := h.alarm k hk
    refine ⟨v, hv, ?_⟩
    by_cases hvw : v = w
    · subst v
      simpa using hne
    · simpa [hvw] using hex
  exited v hv := by
    by_cases hvw : v = w
    · subst v
      simp [hne] at hv
    · exact h.exited v (by simpa [hvw] using hv)
  joined v hv := by
    have hex := h.joined v hv
    by_cases hvw : v = w
    · subst v
      exact absurd hex hw
    · simpa [hvw] using hex

theorem Attended.exit {s : State F n T} (h : Attended s) {w : Fin n}
    (hs : s.shutdown w = true) (hal : w.val ∉ s.alarms) :
    Attended { s with worker := Function.update s.worker w .exited } where
  sized := h.sized
  shutdown := h.shutdown
  alarm k hk := by
    obtain ⟨v, hv, hex⟩ := h.alarm k hk
    have hvw : v ≠ w := by
      intro he
      subst v
      exact hal (hv ▸ hk)
    exact ⟨v, hv, by simpa [hvw] using hex⟩
  exited v hv := by
    by_cases hvw : v = w
    · subst v
      exact hs
    · exact h.exited v (by simpa [hvw] using hv)
  joined v hv := by
    by_cases hvw : v = w
    · subst v
      simp
    · simpa [hvw] using h.joined v hv

theorem Attended.handleEvent {s : State F n T} (h : Attended s) {w : Fin n}
    (he : (s.worker w).inHandleEvent) : Attended (handleEventNext s w) := by
  have hw : s.worker w ≠ .exited := by
    intro hx
    simp [hx, WorkerPc.inHandleEvent] at he
  have hmove := h.move (w := w) (p := (handleEventNext s w).worker w) hw
    (handleEventNext_not_exited s he)
  rw [← handleEventNext_worker] at hmove
  exact ⟨by simpa [Sized] using hmove.sized, by simpa using hmove.shutdown,
    by simpa using hmove.alarm, by simpa using hmove.exited, by simpa using hmove.joined⟩

variable [DecidableEq T]

/-- An alarm goes to an open queue, whose worker has not left its loop. -/
theorem Attended.push {s : State F n T} (h : Attended s) (t : Thread n T) :
    Attended (pushNext s t) where
  sized := by simpa [Sized] using h.sized
  shutdown := by simpa using h.shutdown
  alarm j hj := by
    rw [(pushNext_frame s t).1]
    rcases mem_pushNext_alarms hj with hj | ⟨k, -, hpos, hopen, rfl⟩
    · exact h.alarm j hj
    · have hcqs := h.sized.eq_of_ne_zero hpos
      have hn : 0 < n := by omega
      rw [hcqs] at hopen ⊢
      refine ⟨⟨k % n, Nat.mod_lt k hn⟩, rfl, fun hex => ?_⟩
      have hsh := h.exited _ hex
      simp [hopen] at hsh
  exited := by simpa using h.exited
  joined := by simpa using h.joined

variable [DecidableEq F]

theorem attended_step {s s' : State F n T} {a : Action F n T} (h : Attended s)
    (hs : step s a = some s') : Attended s' := by
  obtain ⟨⟨-, he⟩, rfl⟩ := stepOf_eq_some.mp hs
  cases a with
  | beginPush t fn k => exact ⟨h.sized, h.shutdown, h.alarm, h.exited, h.joined⟩
  | push t => exact h.push t
  | online w => exact h.move (by simp [he.1]) (by simp)
  | nextAlarm w =>
    have hmove := h.move (w := w) (p := .pop .first) (by simp [he.1]) (by simp)
    exact { hmove with
      alarm := fun k hk => hmove.alarm k (List.mem_of_mem_erase hk) }
  | nextEvent w =>
    have hw : s.worker w = .next := he
    exact h.move (by simp [hw]) (by simp)
  | endEvent w => exact h.move (by simp [he.1]) (by simp)
  | handleEvent w => exact h.handleEvent he.1
  | exit w => exact h.exit he.2.1 he.2.2
  | stop => exact h.stop he.1 he.2

theorem attended_run {s : State F n T} {as : List (Action F n T)}
    (hr : run step .init as = some s) : Attended s :=
  inv_of_run attended_init (fun _ _ _ => attended_step) hr

end AsyncppGrpc.Server
