import Mathlib.Algebra.BigOperators.Group.Finset.Piecewise
import Mathlib.Tactic.Abel

/-! One component of a family changes: what a view of the family and a sum over it do. -/
namespace Update
variable {ι α β M : Type*} [DecidableEq ι]

/-- Updating one component to a value with the same view leaves the view alone. -/
theorem view_update {view : α → β} {f : ι → α} {i : ι} {x : α} (h : view x = view (f i)) :
    view ∘ Function.update f i x = view ∘ f := by
  rw [Function.comp_update, h]
  exact Function.update_eq_self i (view ∘ f)

theorem sum_update [Fintype ι] [AddCommMonoid M] (g : α → M) (f : ι → α) (i : ι) (x : α) :
    ∑ j, g (Function.update f i x j) + g (f i) = ∑ j, g (f j) + g x := by
  have hcomp : (fun j => g (Function.update f i x j)) =
      Function.update (fun j => g (f j)) i (g x) := by
    funext j
    by_cases hj : j = i
    · subst j
      simp
    · simp [hj]
  rw [hcomp, Finset.sum_update_of_mem (Finset.mem_univ i), Finset.sdiff_singleton_eq_erase,
    ← Finset.add_sum_erase Finset.univ _ (Finset.mem_univ i)]
  abel

end Update
