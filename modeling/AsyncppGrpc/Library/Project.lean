import AsyncppGrpc.Library.Run

/-! A second copy of a machine that is given only some of the actions of a run. -/
namespace Project
open Run
variable {σ α : Type*} {step : σ → α → Option σ} {p : α → Bool} {P : σ → Prop}
  {Rel : σ → σ → Prop} {ok ok' : σ → α → Prop}

/-- Along states with `P` the copy keeps up: it can take the selected actions, and does not
notice the others. -/
def Follows (step : σ → α → Option σ) (p : α → Bool) (P : σ → Prop) (Rel : σ → σ → Prop) : Prop :=
  ∀ s t a s', P s → P s' → Rel s t → step s a = some s' →
    if p a then ∃ t', step t a = some t' ∧ Rel s' t' else Rel s' t

theorem run_filter (h : Follows step p P Rel) {s t s' : σ} {as : List α}
    (hP : Always step P s as) (hRel : Rel s t) (hr : run step s as = some s') :
    ∃ t', run step t (as.filter p) = some t' ∧ Rel s' t' := by
  induction as generalizing s t with
  | nil =>
    obtain rfl : s = s' := by simpa using hr
    exact ⟨t, rfl, hRel⟩
  | cons a as ih =>
    obtain ⟨u, ha, hr'⟩ := run_cons_eq_some.mp hr
    have hu := hP.2 u ha
    have hfollow := h s t a u hP.1 hu.head hRel ha
    by_cases hpa : p a
    · rw [if_pos hpa] at hfollow
      obtain ⟨v, hv, hRel'⟩ := hfollow
      obtain ⟨t', ht', hfin⟩ := ih hu hRel' hr'
      rw [List.filter_cons_of_pos hpa]
      exact ⟨t', run_cons_eq_some.mpr ⟨v, hv, ht'⟩, hfin⟩
    · rw [if_neg hpa] at hfollow
      rw [List.filter_cons_of_neg hpa]
      exact ih hu hfollow hr'

/-- A guard that only looks at the selected actions, and at the same things in both copies. -/
theorem guarded_filter (h : Follows step p P Rel)
    (hok : ∀ s t a s', P s → Rel s t → step s a = some s' →
      if p a then (ok s a ↔ ok' t a) else ok s a)
    {s t s' : σ} {as : List α} (hP : Always step P s as) (hRel : Rel s t)
    (hr : run step s as = some s') :
    Guarded step ok s as ↔ Guarded step ok' t (as.filter p) := by
  induction as generalizing s t with
  | nil => exact Iff.rfl
  | cons a as ih =>
    obtain ⟨u, ha, hr'⟩ := run_cons_eq_some.mp hr
    have hu := hP.2 u ha
    have hfollow := h s t a u hP.1 hu.head hRel ha
    have hguard := hok s t a u hP.1 hRel ha
    simp only [Guarded, ha, Option.mem_some_iff, forall_eq']
    by_cases hpa : p a
    · rw [if_pos hpa] at hfollow hguard
      obtain ⟨v, hv, hRel'⟩ := hfollow
      rw [List.filter_cons_of_pos hpa, hguard, ih hu hRel' hr']
      simp [Guarded, hv]
    · rw [if_neg hpa] at hfollow hguard
      rw [List.filter_cons_of_neg hpa, ih hu hfollow hr']
      exact and_iff_right hguard

end Project
