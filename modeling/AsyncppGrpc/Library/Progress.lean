import AsyncppGrpc.Library.Run

/-! Runs that come to an end. Every step uses up some of the work that is left; the steps that
bring new work in are charged for it. -/
namespace Progress
open Run
variable {σ α : Type*} {step : σ → α → Option σ} {work : σ → Nat} {brings : α → Nat}
  {P Done : σ → Prop}

/-- A step does at least one unit of the work there is, with what it brings in. -/
def Pays (step : σ → α → Option σ) (work : σ → Nat) (brings : α → Nat) : Prop :=
  ∀ s a s', step s a = some s' → work s' + 1 ≤ work s + brings a

/-- What a schedule brings in. -/
def brought (brings : α → Nat) : List α → Nat
  | [] => 0
  | a :: as => brings a + brought brings as

/-- A run is no longer than the work it starts with and the work brought in on the way. -/
theorem Pays.length_le (h : Pays step work brings) {s t : σ} {as : List α}
    (hr : run step s as = some t) : as.length + work t ≤ work s + brought brings as := by
  induction as generalizing s with
  | nil =>
    obtain rfl : s = t := by simpa using hr
    simp [brought]
  | cons a as ih =>
    obtain ⟨u, ha, hr'⟩ := run_cons_eq_some.mp hr
    have hstep := h s a u ha
    have hrest := ih hr'
    simp only [List.length_cons, brought]
    omega

/-- If a state that is not done always has a step that brings nothing in, such steps alone get
done. -/
theorem Pays.exists_done (h : Pays step work brings)
    (hP : ∀ s a s', P s → step s a = some s' → P s')
    (hgo : ∀ s, P s → ¬Done s → ∃ a s', brings a = 0 ∧ step s a = some s') {s : σ} (hs : P s) :
    ∃ as t, (∀ a ∈ as, brings a = 0) ∧ run step s as = some t ∧ Done t := by
  induction hn : work s using Nat.strongRecOn generalizing s with
  | ind n ih =>
    by_cases hdone : Done s
    · exact ⟨[], s, by simp, rfl, hdone⟩
    · obtain ⟨a, u, hfree, ha⟩ := hgo s hs hdone
      have hless := h s a u ha
      obtain ⟨as, t, hall, hr, ht⟩ := ih (work u) (by omega) (hP s a u hs ha) rfl
      refine ⟨a :: as, t, ?_, run_cons_eq_some.mpr ⟨u, ha, hr⟩, ht⟩
      simpa [hfree] using hall

end Progress
